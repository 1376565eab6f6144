import ReticulumProtocols.Gorrcd.BanFile
import ReticulumProtocols.Gorrcd.Notice
import ReticulumProtocols.Gorrcd.Ping
import ReticulumProtocols.Librrc.EventQueue
import ReticulumProtocols.Lxmf.AttemptOrder
import ReticulumProtocols.Lxmf.DaemonConfig
import ReticulumProtocols.Lxmf.FieldsJson
import ReticulumProtocols.Lxmf.OfferLimits
import ReticulumProtocols.Lxmf.Paper
import ReticulumProtocols.Lxmf.PeerRotation
import ReticulumProtocols.Lxmf.PeerSync
import ReticulumProtocols.Lxmf.PropagationAnnounce
import ReticulumProtocols.Lxmf.Session
import ReticulumProtocols.Lxmf.StampSearch
import ReticulumProtocols.Lxmf.StoreLimit
import ReticulumProtocols.Lxmf.TicketInterval
import ReticulumProtocols.Lxst.AnswerHash
import ReticulumProtocols.Lxst.FailedAnswer
import ReticulumProtocols.Lxst.Opus
import ReticulumProtocols.Lxst.Phonebook
import ReticulumProtocols.Mf.Message
import ReticulumProtocols.Rnv.Profiles
import ReticulumProtocols.Rnv.RateWindow
import ReticulumProtocols.Rrc.Agreement
import ReticulumProtocols.Rrc.Bodies
import ReticulumProtocols.Rrc.Dial
import ReticulumProtocols.Rrc.RateBound
