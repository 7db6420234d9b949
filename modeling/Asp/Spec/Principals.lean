import Asp.Spec.OpenSession

/-! Who a connection acts for: `handle_hello` with `install_connection_principal`, the check of
`handle_stream` before a request, and `get_authorized`. The streams of the connection interleave
in any way, and the files with the credentials change at any time. -/

namespace Asp

/-- An `AuthPrincipal` with what it authenticated with. -/
structure AuthIdentity extends AuthPrincipal where
  credential : String
  certificateSha256 : Option String
  deriving DecidableEq

namespace AuthIdentity

def anonymous : AuthIdentity := ⟨⟨"anonymous", ["*"]⟩, "", none⟩

def legacy (credential : String) : AuthIdentity := ⟨⟨"legacy", ["*"]⟩, credential, none⟩

end AuthIdentity

/-- An entry of the file of principals or of certificates; `secret` is its token or fingerprint. -/
structure AuthConfig where
  secret : String
  scopes : List String
  deriving DecidableEq

structure AuthSources where
  token : Option String
  tokenFile : Bool
  principalsFile : Bool
  certificatesFile : Bool

/-- What loading their files gives; `none` is an error. -/
structure AuthFiles where
  token : Option String
  principals : Option (List (String × AuthConfig))
  certificates : Option (List (String × AuthConfig))
  deriving DecidableEq

def validAuthEntry (entry : String × AuthConfig) : Bool :=
  validPrincipalId entry.1 && entry.2.scopes ≠ [] &&
    entry.2.scopes.all fun scope => scope ≠ "" && scope.utf8ByteSize ≤ 128 && !(asBytes scope).contains 0

/-- The one valid entry of a file that matches. -/
def uniqueMatch (configs : Option (List (String × AuthConfig))) (p : AuthConfig → Bool) :
    Option (String × AuthConfig) := do
  let configs ← configs
  if configs.length > 4096 then none
  else
    match configs.filter fun entry => validAuthEntry entry && p entry.2 with
    | [entry] => some entry
    | _ => none

namespace AuthSources

variable (sources : AuthSources) (files : AuthFiles)

def required : Bool :=
  sources.token.isSome || sources.tokenFile || sources.principalsFile || sources.certificatesFile

def authenticate (provided : String) : Option AuthIdentity :=
  if !sources.required then some .anonymous
  else if sources.principalsFile then
    (uniqueMatch files.principals fun config => 32 ≤ config.secret.utf8ByteSize &&
      config.secret.utf8ByteSize ≤ 4096 && config.secret == provided).map fun entry =>
        ⟨⟨entry.1, entry.2.scopes⟩, provided, none⟩
  else do
    let expected ← if sources.tokenFile then files.token else sources.token
    if 32 ≤ expected.utf8ByteSize ∧ expected.utf8ByteSize ≤ 4096 ∧ expected = provided then
      some (.legacy provided)
    else none

def authenticateCertificate (provided : String) : Option AuthIdentity :=
  if !sources.certificatesFile || !validSha256 provided then none
  else (uniqueMatch files.certificates fun config => validSha256 config.secret &&
    toAsciiLowercase config.secret == toAsciiLowercase provided).map fun entry =>
      let fingerprint := toAsciiLowercase entry.2.secret
      ⟨⟨entry.1, entry.2.scopes⟩, "cert:" ++ fingerprint, some fingerprint⟩

def principalCurrent (principal : AuthIdentity) : Bool :=
  match principal.certificateSha256 with
  | some fingerprint => sources.authenticateCertificate files fingerprint = some principal
  | none => sources.authenticate files principal.credential = some principal

def helloPrincipal (peer : Option String) (provided : String) : Option AuthIdentity :=
  if sources.certificatesFile then peer.bind (sources.authenticateCertificate files)
  else sources.authenticate files provided

end AuthSources

/-- A stream between two accesses to what the streams share. -/
inductive AuthPhase
  | accepted
  | hello (candidate : AuthIdentity) (files : AuthFiles)
  | installed
  /-- The flag was read as set, then the principal. -/
  | loaded
  | held (current : Option AuthIdentity)
  /-- The principal is not current: the flag is cleared, then the principal. -/
  | revoking
  | revoked
  | checked
  | confirmed
  | ended
  deriving DecidableEq

/-- A session that the request of a stream was given. -/
structure AuthGrant where
  stream : ℕ
  principal : AuthIdentity
  owner : String
  scope : String
  deriving DecidableEq

/-- All principals that were installed, with the files at their authentication. -/
abbrev AuthInstalls := List (AuthIdentity × AuthFiles)

structure AuthConnection where
  files : AuthFiles
  authenticated : Bool
  principal : Option AuthIdentity
  /-- The principal of the `PrincipalConnectionGuard`. -/
  lease : Option String
  streams : List AuthPhase
  installs : AuthInstalls
  grants : List AuthGrant
  deriving DecidableEq

inductive ConnectionAction
  | rewrite (files : AuthFiles)
  | accept
  /-- The request of the stream is a HELLO. -/
  | hello (n : ℕ) (provided : String)
  | advance (n : ℕ)
  | grant (n : ℕ) (owner scope : String)
  /-- An answer, a refusal, an error or a cancellation. -/
  | leave (n : ℕ)

namespace AuthConnection

def initial (sources : AuthSources) (files : AuthFiles) : AuthConnection :=
  if sources.required then ⟨files, false, none, none, [], [], []⟩
  else ⟨files, true, some .anonymous, some "anonymous", [], [(.anonymous, files)], []⟩

def put (s : AuthConnection) (n : ℕ) (phase : AuthPhase) : AuthConnection :=
  { s with streams := s.streams.set n phase }

/-- `principal_identity_conflicts` -/
def conflicts (s : AuthConnection) (candidate : AuthIdentity) : Bool :=
  s.lease.any (· ≠ candidate.id) || s.principal.any (·.credential ≠ candidate.credential)

def advance (sources : AuthSources) (s : AuthConnection) (n : ℕ) : AuthPhase → Option AuthConnection
  | .accepted => some (s.put n (if s.authenticated then .loaded else .checked))
  | .hello candidate files =>
      if s.conflicts candidate then some (s.put n .ended)
      else some { s.put n .installed with
        principal := some candidate
        lease := some candidate.id
        installs := s.installs ++ [(candidate, files)] }
  | .installed => some { s.put n .ended with authenticated := true }
  | .loaded => some (s.put n (.held s.principal))
  | .held current =>
      some (s.put n (if current.any (sources.principalCurrent s.files) then .checked else .revoking))
  | .revoking => some { s.put n .revoked with authenticated := false }
  | .revoked => some { s.put n .checked with principal := none }
  | .checked => some (s.put n (if s.authenticated then .confirmed else .ended))
  | .confirmed | .ended => none

def act (sources : AuthSources) (peer : Option String) (s : AuthConnection) :
    ConnectionAction → Option AuthConnection
  | .rewrite files => some { s with files }
  | .accept => some { s with streams := s.streams ++ [.accepted] }
  | .hello n provided =>
      if s.streams[n]? = some .accepted then
        (sources.helloPrincipal s.files peer provided).map fun candidate =>
          s.put n (.hello candidate s.files)
      else none
  | .advance n => s.streams[n]?.bind (s.advance sources n)
  | .grant n owner scope => do
      let principal ← s.principal
      if s.streams[n]? = some .confirmed ∧ principal.allows scope ∧ owner = principal.id then
        some { s with grants := s.grants ++ [⟨n, principal, owner, scope⟩] }
      else none
  | .leave n => some (s.put n .ended)

end AuthConnection

/-- The action does not give the files the principal. -/
def ConnectionAction.withholds (sources : AuthSources) (q : AuthIdentity) : ConnectionAction → Bool
  | .rewrite files => !sources.principalCurrent files q
  | .accept | .hello .. | .advance _ | .grant .. | .leave _ => true

def connectionMachine (sources : AuthSources) (peer : Option String) :
    Steps.Machine ConnectionAction AuthConnection :=
  ⟨fun action s => s.act sources peer action, fun _ _ => []⟩

end Asp
