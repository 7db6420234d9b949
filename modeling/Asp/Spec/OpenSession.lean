import Asp.Lib.Lookup
import Asp.Spec.Journal

/-! OPEN_SESSION: `SessionStore::open_session`, `Session::persisted` and what
`open_with_budgets` finds at startup. The alias table, the session directory, its owner
file and the first event are separate durable steps, and the daemon may stop after
each. The mutex of the alias table lets one request at a time through. -/

namespace Asp

open Std

def maxSessions : ℕ := 256
def maxSessionsPerPrincipal : ℕ := 64

structure AuthPrincipal where
  id : String
  scopes : List String
  deriving DecidableEq

/-- What `authenticate` asks of the name of a principal. -/
def validPrincipalId (id : String) : Bool :=
  1 ≤ id.utf8ByteSize && id.utf8ByteSize ≤ 256 && !(asBytes id).contains 0

def AuthPrincipal.allows (principal : AuthPrincipal) (scope : String) : Bool :=
  principal.scopes.any fun value => value = "*" || value = scope

/-- `str::trim` -/
def trim (text : String) : String :=
  String.ofList
    ((text.toList.dropWhile isWhitespace).reverse.dropWhile isWhitespace).reverse

inductive OwnerError where
  /-- "state file exceeds the 256 byte safety limit" -/
  | tooLarge
  /-- "invalid owner metadata" -/
  | invalid
  deriving DecidableEq

/-- `load_session_owner`, from what the owner file holds. -/
def loadSessionOwner : Option String → Except OwnerError String
  | none => .ok "legacy"
  | some file =>
      if file.utf8ByteSize > 256 then .error .tooLarge
      else
        let owner := trim file
        if owner.isEmpty || owner.utf8ByteSize > 256 || (asBytes owner).contains 0 then
          .error .invalid
        else .ok owner

/-- A session on disk: its owner file and the events that its log ever took. -/
structure SessionDirectory where
  owner : Option String
  log : List Event
  deriving DecidableEq

structure LiveSession where
  owner : String
  journal : Journal
  deriving DecidableEq

/-- The next step of a request that creates a session. -/
inductive OpenStep where
  | aliases
  | directory
  | owner
  | created
  /-- The session could not be created: the alias table is written without it. -/
  | forget
  deriving DecidableEq

structure Opening where
  requestId : Uuid
  principal : String
  id : Uuid
  next : OpenStep
  deriving DecidableEq

structure LiveStore where
  openRequests : ExtTreeMap Uuid Uuid
  sessions : ExtTreeMap Uuid LiveSession
  opening : Option Opening
  deriving DecidableEq

structure OpenAnswer where
  requestId : Uuid
  principal : String
  id : Uuid
  deriving DecidableEq

structure SessionStore where
  /-- `open-requests.json` -/
  aliasFile : ExtTreeMap Uuid Uuid
  directories : ExtTreeMap Uuid SessionDirectory
  daemon : Option LiveStore
  /-- The identifiers that were ever drawn, with the requests they were drawn for. -/
  issued : ExtTreeMap Uuid Uuid
  /-- The sessions that were ever returned. -/
  answers : List OpenAnswer
  deriving DecidableEq

/-- How a durable step ends. A step that reports an error may have been applied. -/
inductive IoOutcome where
  | ok
  | failed (applied : Bool)
  deriving DecidableEq

def IoOutcome.applied : IoOutcome → Bool
  | .ok => true
  | .failed applied => applied

namespace SessionStore

def initial : SessionStore := ⟨∅, ∅, none, ∅, []⟩

/-- `open_session` up to its first durable step; `id` is the identifier it draws. -/
def openSession (st : SessionStore) (d : LiveStore) (requestId : Uuid) (principal : AuthPrincipal)
    (id : Uuid) : SessionStore :=
  if !principal.allows "session:create" then st
  else
    match (d.openRequests[requestId]?).bind fun id => (d.sessions[id]?).map fun s => (id, s) with
    | some (id, session) =>
        if session.owner ≠ principal.id then st
        else { st with answers := st.answers ++ [⟨requestId, principal.id, id⟩] }
    | none =>
        let d := { d with openRequests := d.openRequests.erase requestId }
        let principalSessions := d.sessions.toList.countP fun entry => entry.2.owner = principal.id
        if d.sessions.size ≥ maxSessions ∨ principalSessions ≥ maxSessionsPerPrincipal then
          { st with daemon := some d }
        else
          { st with
            daemon := some { d with
              openRequests := d.openRequests.insert requestId id
              opening := some ⟨requestId, principal.id, id, .aliases⟩ }
            issued := st.issued.insert id requestId }

/-- The session could not be made: its alias goes, first in memory. -/
def abandon (st : SessionStore) (d : LiveStore) (o : Opening) (next : Option OpenStep) :
    SessionStore :=
  { st with daemon := some { d with
      openRequests := d.openRequests.erase o.requestId
      opening := next.map fun next => { o with next } } }

def advance (st : SessionStore) (d : LiveStore) (o : Opening) (next : OpenStep) : SessionStore :=
  { st with daemon := some { d with opening := some { o with next } } }

/-- The rest of `open_session`, one durable step at a time. -/
def ioStep (st : SessionStore) (d : LiveStore) (o : Opening) (outcome : IoOutcome) (unixMs : ℕ) :
    SessionStore :=
  let writeAliases := if outcome.applied then { st with aliasFile := d.openRequests } else st
  let change (directories : ExtTreeMap Uuid SessionDirectory) :=
    if outcome.applied then { st with directories } else st
  match o.next with
  | .aliases =>
      if outcome = .ok then writeAliases.advance d o .directory else writeAliases.abandon d o none
  | .directory =>
      let st := change (st.directories.insert o.id ⟨none, []⟩)
      if outcome = .ok then st.advance d o .owner else st.abandon d o (some .forget)
  | .owner =>
      let st := change (st.directories.modify o.id fun directory =>
        { directory with owner := some o.principal })
      if outcome = .ok then st.advance d o .created else st.abandon d o (some .forget)
  | .created =>
      let (journal, event) := (Journal.fromLoaded {}).append unixMs .sessionCreated
      let st := change (st.directories.modify o.id fun directory =>
        { directory with log := directory.log ++ [event] })
      if outcome = .ok then
        { st with
          daemon := some { d with
            sessions := d.sessions.insert o.id ⟨o.principal, journal.enforceBounds⟩
            opening := none }
          answers := st.answers ++ [⟨o.requestId, o.principal, o.id⟩] }
      else st.abandon d o (some .forget)
  | .forget => { writeAliases with daemon := some { d with opening := none } }

def append (st : SessionStore) (d : LiveStore) (id : Uuid) (session : LiveSession) (unixMs : ℕ)
    (kind : EventKind) : SessionStore :=
  let (journal, event) := session.journal.append unixMs kind
  { st with
    directories := st.directories.modify id fun directory =>
      { directory with log := directory.log ++ [event] }
    daemon := some { d with
      sessions := d.sessions.insert id { session with journal := journal.enforceBounds } } }

section Start

variable (sha256 : Bytes → String)

def restored (directory : SessionDirectory) : Option LiveSession :=
  (loadSessionOwner directory.owner).toOption.map fun owner =>
    ⟨owner, Journal.fromLoaded (directory.log.foldl (LoadedSession.push sha256) {})⟩

/-- `open_with_budgets`: one owner file that cannot be read keeps the daemon down. -/
def start (st : SessionStore) : SessionStore :=
  let daemon : LiveStore :=
    { openRequests := Lookup.select (fun _ id => if id ∈ st.directories then some id else none)
        st.aliasFile
      sessions := Lookup.select (fun _ directory => restored sha256 directory) st.directories
      opening := none }
  if st.directories.toList.all fun entry => (restored sha256 entry.2).isSome then
    { st with daemon := some daemon }
  else st

end Start

end SessionStore

inductive StoreAction where
  | openSession (requestId : Uuid) (principal : AuthPrincipal) (id : Uuid)
  | io (outcome : IoOutcome) (unixMs : ℕ)
  | append (id : Uuid) (unixMs : ℕ) (kind : EventKind)
  | crash
  | start
  deriving DecidableEq

def storeMachine (sha256 : Bytes → String) : Steps.Machine StoreAction SessionStore where
  act action st :=
    match action, st.daemon with
    | .openSession requestId principal id, some d =>
        if d.opening = none ∧ validPrincipalId principal.id ∧ id ∉ st.issued then
          some (st.openSession d requestId principal id)
        else none
    | .io outcome unixMs, some d => d.opening.map fun o => st.ioStep d o outcome unixMs
    | .append id unixMs kind, some d =>
        (d.sessions[id]?).map fun session => st.append d id session unixMs kind
    | .crash, some _ => some { st with daemon := none }
    | .start, none => some (st.start sha256)
    | _, _ => none
  fault _ _ := []

/-- The directory that a request has made and not yet filled. -/
def LiveStore.making (d : LiveStore) : Option Uuid :=
  d.opening.bind fun o => if o.next = .owner ∨ o.next = .created then some o.id else none

/-- Names of principals have no whitespace around them, and between the creation of a
directory and its first event the daemon neither stops nor meets an error. -/
def CreatesWhole (st : SessionStore) : StoreAction → Prop
  | .openSession _ principal _ => trim principal.id = principal.id
  | .io (.failed applied) _ =>
      ∀ d, st.daemon = some d → d.making = none ∧
        ∀ o, d.opening = some o → o.next = .directory → applied = false
  | .crash => ∀ d, st.daemon = some d → d.making = none
  | _ => True

/-- There is room for one more session of the principal. -/
def LiveStore.HasRoom (d : LiveStore) (principal : String) : Prop :=
  d.sessions.size < maxSessions ∧
    (d.sessions.toList.countP fun entry => entry.2.owner = principal) < maxSessionsPerPrincipal

end Asp
