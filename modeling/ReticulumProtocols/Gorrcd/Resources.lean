import ReticulumProtocols.Gorrcd.Service

/-! Resources that a peer announces before it transfers them: what the daemon expects of each identity, and which of the
expectations a payload meets. Times are in nanoseconds. -/

namespace ReticulumProtocols.Gorrcd
open Wire Cbor Lxmf Rrc

def resourceKindNotice : Text := "notice".toList

structure Expectation where
  id : Bytes
  kind : Text
  size : UInt64
  sha256 : Bytes
  encoding : Text
  room : Text
  expires : Int

namespace Expectation
variable (e : Expectation)

def mismatches (sum : Bytes) : Bool := decide (e.sha256 ≠ []) && decide (e.sha256 ≠ sum)

def fits (payload : Bytes) : Bool := decide (e.size = .ofNat payload.length) && !e.mismatches (Sha256.sha256 payload)

def notifies : Bool := decide (e.kind = resourceKindNotice) && decide (e.room ≠ [])

end Expectation

/-- `byPeer`. -/
abbrev Resources := GoMap ID (GoMap Bytes Expectation)

namespace Resources
variable (r : Resources) (id : ID) (now : Int) (visit : Visit)

def pending : GoMap Bytes Expectation := (r.lookup id).getD ∅

/-- The expectations of an identity in the order of a map iteration. -/
def visited : List Expectation := (visit.run (r.pending id).entries).map Sigma.snd

def expireLocked : Resources :=
  match r.lookup id with
  | none => r
  | some m =>
    let m := eraseWhere (fun e => e.expires < now) m
    if m.keys = [] then r.erase id else r.insert id m

def cleanup : Resources := r.keys.foldl (fun r id => r.expireLocked id now) r

/-- `Add`, with the error it returns. -/
def add (cfg : Config) (saturates : Bool) (peer : Bytes) (env : Envelope) : Resources × Option String :=
  match validateResourceEnvelopeBody env.body with
  | .error reason => (r, some reason)
  | .ok body =>
    match idFrom peer with
    | none => (r, some "invalid peer")
    | some id =>
      let r := r.expireLocked id now
      let m := r.pending id
      let max := if cfg.maxPendingResourceExpectations = 0 then 8 else cfg.maxPendingResourceExpectations
      if max ≤ m.keys.length then (r, some "too many pending resource expectations")
      else
        let ttl := if cfg.resourceExpectationTTLS ≤ Float64.ofInt 0 then Float64.ofInt 30
          else cfg.resourceExpectationTTLS
        let e : Expectation :=
          { id := body.id.getD []
            kind := body.kind.getD []
            size := body.size.getD 0
            sha256 := body.sha256.getD []
            encoding := body.encoding.getD []
            room := env.room.getD []
            expires := now + Float64.toInt64 saturates (ttl * Float64.ofInt 1000000000) }
        (r.insert id (m.insert e.id e), none)

def matchSizeLocked (size : UInt64) : Option Expectation := (r.visited id visit).find? fun e => e.size = size

def matchLocked (payload : Bytes) : Option Expectation := (r.visited id visit).find? fun e => e.fits payload

/-- The expectation that was met is taken out. -/
def take (e : Expectation) : Resources := r.insert id ((r.pending id).erase e.id)

end Resources

end ReticulumProtocols.Gorrcd
