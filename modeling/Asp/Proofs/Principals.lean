import Asp.Lib.Parties
import Asp.Spec.Principals

/-! A connection acts for one principal, whatever its streams do, and a principal that the files
no longer have is neither installed again nor given to the requests that come after. -/

namespace Asp

section

variable (sources : AuthSources) (peer : Option String)

/-- The principal of a HELLO that is not yet installed was authenticated. -/
def AuthPhase.Authentic : AuthPhase → Prop
  | .hello candidate files => ∃ provided, sources.helloPrincipal files peer provided = some candidate
  | .accepted | .installed | .loaded | .held _ | .revoking | .revoked | .checked | .confirmed
  | .ended => True

def AuthGrant.Holds (installs : AuthInstalls) (g : AuthGrant) : Prop :=
  (∃ files, (g.principal, files) ∈ installs) ∧ g.principal.allows g.scope = true ∧
    g.owner = g.principal.id

structure AuthConnection.Bound (s : AuthConnection) : Prop where
  installs : ∀ x ∈ s.installs, s.lease = some x.1.id ∧
    ∃ provided, sources.helloPrincipal x.2 peer provided = some x.1
  current : ∀ q, s.principal = some q → ∃ files, (q, files) ∈ s.installs
  streams : ∀ phase ∈ s.streams, phase.Authentic sources peer
  grants : ∀ g ∈ s.grants, g.Holds s.installs

end

variable {sources : AuthSources} {peer : Option String} {s s' : AuthConnection} {n : ℕ}
  {files : AuthFiles}

namespace AuthConnection

theorem mem_streams_put {phase phase' : AuthPhase} (h : phase' ∈ (s.put n phase).streams) :
    phase' ∈ s.streams ∨ phase' = phase := List.mem_or_eq_of_mem_set h

theorem bound_initial : (initial sources files).Bound sources peer := by
  unfold initial
  split_ifs with hrequired
  · exact ⟨by simp, by simp, by simp, by simp⟩
  · have hhello : sources.helloPrincipal files peer "" = some .anonymous := by
      have hnone : sources.certificatesFile = false := by
        simp only [AuthSources.required, Bool.or_eq_true, not_or] at hrequired
        simpa using hrequired.2
      simp [AuthSources.helloPrincipal, AuthSources.authenticate, hnone, hrequired]
    refine ⟨?_, ?_, by simp, by simp⟩
    · rintro x hx
      obtain rfl := List.mem_singleton.mp hx
      exact ⟨rfl, "", hhello⟩
    · rintro q hq
      cases hq
      exact ⟨files, List.mem_singleton_self _⟩

theorem Bound.put (h : s.Bound sources peer) (n : ℕ) (phase : AuthPhase)
    (hphase : phase.Authentic sources peer) : (s.put n phase).Bound sources peer := by
  refine ⟨h.installs, h.current, fun phase' hmem => ?_, h.grants⟩
  rcases mem_streams_put hmem with hmem | rfl
  · exact h.streams _ hmem
  · exact hphase

theorem Bound.install (h : s.Bound sources peer) {candidate : AuthIdentity}
    (hhello : ∃ provided, sources.helloPrincipal files peer provided = some candidate)
    (hlease : ∀ id, s.lease = some id → id = candidate.id) :
    { s with
      principal := some candidate
      lease := some candidate.id
      installs := s.installs ++ [(candidate, files)] }.Bound sources peer := by
  refine ⟨fun x hx => ?_, fun q hq => ?_, h.streams, fun g hg => ?_⟩
  · rcases Parties.mem_concat hx with hx | rfl
    · obtain ⟨hid, hprovided⟩ := h.installs x hx
      exact ⟨congrArg some (hlease _ hid).symm, hprovided⟩
    · exact ⟨rfl, hhello⟩
  · cases hq
    exact ⟨files, List.mem_append_right _ (List.mem_singleton_self _)⟩
  · obtain ⟨⟨files', hmem⟩, hrest⟩ := h.grants g hg
    exact ⟨⟨files', List.mem_append_left _ hmem⟩, hrest⟩

theorem Bound.advance {phase : AuthPhase} (h : s.Bound sources peer) (hn : s.streams[n]? = some phase)
    (hact : s.advance sources n phase = some s') : s'.Bound sources peer := by
  have hphase := h.streams phase (List.mem_of_getElem? hn)
  cases phase with
  | hello candidate files =>
    simp only [AuthConnection.advance] at hact
    split_ifs at hact with hconflict
    · cases hact
      exact h.put n _ trivial
    · cases hact
      refine (h.put n .installed trivial).install hphase fun id hid => ?_
      by_contra hne
      have hid : s.lease = some id := hid
      exact hconflict (by simp [conflicts, hid, hne])
  | accepted | held | checked =>
    cases hact
    refine h.put n _ ?_
    split_ifs <;> trivial
  | installed =>
    cases hact
    obtain ⟨hi, hc, hs, hg⟩ := h.put n .ended trivial
    exact ⟨hi, hc, hs, hg⟩
  | loaded =>
    cases hact
    exact h.put n _ trivial
  | revoking =>
    cases hact
    obtain ⟨hi, hc, hs, hg⟩ := h.put n .revoked trivial
    exact ⟨hi, hc, hs, hg⟩
  | revoked =>
    cases hact
    obtain ⟨hi, -, hs, hg⟩ := h.put n .checked trivial
    exact ⟨hi, nofun, hs, hg⟩
  | confirmed | ended => cases hact

theorem Bound.act {action : ConnectionAction} (h : s.Bound sources peer)
    (hact : s.act sources peer action = some s') : s'.Bound sources peer := by
  cases action with
  | rewrite files =>
    cases hact
    exact ⟨h.installs, h.current, h.streams, h.grants⟩
  | accept =>
    cases hact
    refine ⟨h.installs, h.current, fun phase hmem => ?_, h.grants⟩
    rcases Parties.mem_concat hmem with hmem | rfl
    · exact h.streams phase hmem
    · trivial
  | hello n provided =>
    simp only [AuthConnection.act] at hact
    split_ifs at hact
    obtain ⟨candidate, hcandidate, rfl⟩ := Option.map_eq_some_iff.mp hact
    exact h.put n _ ⟨provided, hcandidate⟩
  | advance n =>
    obtain ⟨phase, hn, hact⟩ := Option.bind_eq_some_iff.mp hact
    exact h.advance hn hact
  | grant n owner scope =>
    obtain ⟨q, hq, hact⟩ := Option.bind_eq_some_iff.mp hact
    split_ifs at hact with hgrant
    cases hact
    obtain ⟨-, hallows, rfl⟩ := hgrant
    refine ⟨h.installs, h.current, h.streams, fun g hg => ?_⟩
    rcases Parties.mem_concat hg with hg | rfl
    · exact h.grants g hg
    · exact ⟨h.current q hq, hallows, rfl⟩
  | leave n =>
    cases hact
    exact h.put n _ trivial

def Reached (sources : AuthSources) (peer : Option String) (files : AuthFiles) :
    AuthConnection → Prop :=
  (connectionMachine sources peer).Reaches (fun _ _ => True) (initial sources files)

theorem Reached.bound (h : Reached sources peer files s) : s.Bound sources peer :=
  h.invariant bound_initial fun _ _ _ _ hact h => h.act hact

/-- All principals of a connection have one identity, which the sources gave for the files at the
time, and every session that a request gets is owned by that identity and in its scopes. -/
theorem acts_for_one_principal (h : Reached sources peer files s) :
    ∃ id, (∀ x ∈ s.installs, x.1.id = id ∧
        ∃ provided, sources.helloPrincipal x.2 peer provided = some x.1) ∧
      ∀ g ∈ s.grants, g.owner = id ∧ g.principal.allows g.scope = true ∧
        ∃ files', (g.principal, files') ∈ s.installs := by
  have hbound := h.bound
  have hid : ∀ x ∈ s.installs, x.1.id = s.lease.getD "" := by
    intro x hx
    rw [(hbound.installs x hx).1, Option.getD_some]
  refine ⟨s.lease.getD "", fun x hx => ⟨hid x hx, (hbound.installs x hx).2⟩, fun g hg => ?_⟩
  obtain ⟨⟨files', hmem⟩, hallows, howner⟩ := hbound.grants g hg
  exact ⟨howner.trans (hid _ hmem), hallows, files', hmem⟩

section Sample

def aliceToken : String := "0123456789abcdef0123456789abcdef"
def renewedToken : String := "abcdef0123456789abcdef0123456789"
def bobToken : String := "456789abcdef0123456789abcdef0123"

def namedSources : AuthSources := ⟨none, false, true, false⟩

def aliceFiles (token : String) : AuthFiles :=
  ⟨none, some [("alice", ⟨token, ["*"]⟩), ("bob", ⟨bobToken, ["*"]⟩)], none⟩

def alice (token : String) : AuthIdentity := ⟨⟨"alice", ["*"]⟩, token, none⟩

/-- Alice signs in, a request is accepted, and alice gets another token. -/
def signIn : List ConnectionAction :=
  [.accept, .hello 0 aliceToken, .advance 0, .advance 0, .accept, .rewrite (aliceFiles renewedToken)]

/-- The request clears the connection, bob is refused, alice signs in with the new token, and
another request gets a session. -/
def renewal : List ConnectionAction :=
  [.advance 1, .advance 1, .advance 1, .advance 1, .advance 1, .advance 1, .accept, .hello 2 bobToken,
    .advance 2, .accept, .hello 3 renewedToken, .advance 3, .advance 3, .accept, .advance 4,
    .advance 4, .advance 4, .advance 4, .grant 4 "alice" "exec"]

def renewed : AuthConnection :=
  ⟨aliceFiles renewedToken, true, some (alice renewedToken), some "alice",
    [.ended, .ended, .ended, .ended, .confirmed],
    [(alice aliceToken, aliceFiles aliceToken), (alice renewedToken, aliceFiles renewedToken)],
    [⟨4, alice renewedToken, "alice", "exec"⟩]⟩

theorem acts_for_alice :
    (connectionMachine namedSources none).runWith (fun _ _ => true) (signIn ++ renewal)
      (initial namedSources (aliceFiles aliceToken)) = some renewed ∧
    ∃ id, (∀ x ∈ renewed.installs, x.1.id = id) ∧ ∀ g ∈ renewed.grants, g.owner = id := by
  have hrun : (connectionMachine namedSources none).runWith (fun _ _ => true) (signIn ++ renewal)
      (initial namedSources (aliceFiles aliceToken)) = some renewed := by decide +kernel
  have hreached : Reached namedSources none (aliceFiles aliceToken) renewed :=
    Steps.Machine.reaches_of_run _ (fun _ _ _ => trivial) .start hrun
  obtain ⟨id, hinstalls, hgrants⟩ := acts_for_one_principal hreached
  exact ⟨hrun, id, fun x hx => (hinstalls x hx).1, fun g hg => (hgrants g hg).1⟩

end Sample

end AuthConnection

section Lowercase

theorem asBytes_ofList (chars : List Char) :
    asBytes (String.ofList chars) = chars.flatMap String.utf8EncodeChar := by
  rw [asBytes, String.toUTF8, String.toByteArray_ofList, List.utf8Encode, List.data_toByteArray]

theorem toNat_lt_of_isHexDigit {c : Char} (h : (String.utf8EncodeChar c).all isHexDigit = true) :
    c.toNat < 128 := by
  by_contra hc
  have hv : ¬ c.val.toNat ≤ 127 := fun hle => hc (Nat.lt_succ_of_le hle)
  simp only [String.utf8EncodeChar, if_neg hv] at h
  split_ifs at h
  all_goals
    have hfirst := List.all_eq_true.mp h _ List.mem_cons_self
    simp [isHexDigit, UInt8.le_iff_toNat_le] at hfirst
    omega

theorem toLower_of_isHexDigit {c : Char} (h : (String.utf8EncodeChar c).all isHexDigit = true) :
    (String.utf8EncodeChar c.toLower).all isHexDigit = true ∧
      (String.utf8EncodeChar c.toLower).length = (String.utf8EncodeChar c).length ∧
      c.toLower.toLower = c.toLower := by
  have hascii : ∀ n < 128, (String.utf8EncodeChar (Char.ofNat n)).all isHexDigit = true →
      (String.utf8EncodeChar (Char.ofNat n).toLower).all isHexDigit = true ∧
        (String.utf8EncodeChar (Char.ofNat n).toLower).length =
          (String.utf8EncodeChar (Char.ofNat n)).length ∧
        (Char.ofNat n).toLower.toLower = (Char.ofNat n).toLower := by decide
  have hlower := hascii c.toNat (toNat_lt_of_isHexDigit h)
  rw [Char.ofNat_toNat] at hlower
  exact hlower h

theorem toAsciiLowercase_of_validSha256 {text : String} (h : validSha256 text = true) :
    validSha256 (toAsciiLowercase text) = true ∧
      toAsciiLowercase (toAsciiLowercase text) = toAsciiLowercase text := by
  have hchars : ∀ chars : List Char, (chars.flatMap String.utf8EncodeChar).all isHexDigit = true →
      ((chars.map Char.toLower).flatMap String.utf8EncodeChar).all isHexDigit = true ∧
        ((chars.map Char.toLower).flatMap String.utf8EncodeChar).length =
          (chars.flatMap String.utf8EncodeChar).length ∧
        (chars.map Char.toLower).map Char.toLower = chars.map Char.toLower := by
    intro chars
    induction chars with
    | nil => exact fun _ => ⟨rfl, rfl, rfl⟩
    | cons c chars ih =>
      simp only [List.flatMap_cons, List.map_cons, List.all_append, Bool.and_eq_true,
        List.length_append]
      intro hall
      obtain ⟨hdigits, hlength, hsame⟩ := toLower_of_isHexDigit hall.1
      obtain ⟨hdigits', hlength', hsame'⟩ := ih hall.2
      exact ⟨⟨hdigits, hdigits'⟩, by rw [hlength, hlength'], by rw [hsame, hsame']⟩
  rw [← String.ofList_toList (s := text)] at h
  rw [validSha256, asBytes_ofList, Bool.and_eq_true] at h
  obtain ⟨hdigits, hlength, hsame⟩ := hchars text.toList h.2
  rw [validSha256, toAsciiLowercase, asBytes_ofList, Bool.and_eq_true, hlength]
  exact ⟨⟨h.1, hdigits⟩, by rw [toAsciiLowercase, String.toList_ofList, hsame]⟩

end Lowercase

theorem uniqueMatch_matches {configs : Option (List (String × AuthConfig))} {p : AuthConfig → Bool}
    {entry : String × AuthConfig} (h : uniqueMatch configs p = some entry) : p entry.2 = true := by
  obtain ⟨configs, -, h⟩ := Option.bind_eq_some_iff.mp h
  split_ifs at h
  split at h
  · next heq =>
    cases h
    have hmem := List.mem_filter.mp (heq ▸ List.mem_singleton_self _)
    exact (Bool.and_eq_true_iff.mp hmem.2).2
  · cases h

theorem AuthSources.authenticateCertificate_current {provided : String} {q : AuthIdentity}
    (h : sources.authenticateCertificate files provided = some q) :
    sources.principalCurrent files q = true := by
  have hfresh : ∃ fingerprint, q.certificateSha256 = some fingerprint ∧
      sources.authenticateCertificate files fingerprint =
        sources.authenticateCertificate files provided := by
    unfold authenticateCertificate at h
    split_ifs at h with hasked
    obtain ⟨entry, hentry, rfl⟩ := Option.map_eq_some_iff.mp h
    have hsame := (Bool.and_eq_true_iff.mp (uniqueMatch_matches hentry)).2
    refine ⟨_, rfl, ?_⟩
    simp only [Bool.or_eq_true, Bool.not_eq_true', not_or, Bool.not_eq_false] at hasked
    obtain ⟨hvalid, hagain⟩ := toAsciiLowercase_of_validSha256 hasked.2
    unfold authenticateCertificate
    rw [beq_iff_eq.mp hsame, hagain, hasked.1, hasked.2, hvalid]
  obtain ⟨fingerprint, hq, hagain⟩ := hfresh
  rw [principalCurrent, hq]
  exact decide_eq_true (hagain.trans h)

theorem AuthSources.helloPrincipal_current {provided : String} {q : AuthIdentity}
    (h : sources.helloPrincipal files peer provided = some q) :
    sources.principalCurrent files q = true := by
  unfold helloPrincipal at h
  split_ifs at h with hcertificates
  · obtain ⟨fingerprint, -, hfingerprint⟩ := Option.bind_eq_some_iff.mp h
    exact authenticateCertificate_current hfingerprint
  · have hfresh : q.certificateSha256 = none ∧
        sources.authenticate files q.credential = sources.authenticate files provided := by
      unfold authenticate at h
      split_ifs at h with hrequired hprincipals
      · cases h
        exact ⟨rfl, by simp only [authenticate, hrequired, if_true]⟩
      · obtain ⟨entry, -, rfl⟩ := Option.map_eq_some_iff.mp h
        exact ⟨rfl, rfl⟩
      all_goals
        obtain ⟨expected, -, h⟩ := Option.bind_eq_some_iff.mp h
        dsimp only at h
        split_ifs at h
        cases h
        exact ⟨rfl, rfl⟩
    rw [principalCurrent, hfresh.1]
    exact decide_eq_true (hfresh.2.trans h)

section Revoked

variable {q : AuthIdentity} {fresh : ℕ → Prop} {k j : ℕ}

/-- A request that looks at the connection after the files lost the principal `q`, while `q` is
still installed: it has not passed the check, and it will not while the flag is unset. -/
def AuthPhase.Waits (q : AuthIdentity) (authenticated : Bool) : AuthPhase → Prop
  | .held current => current = some q
  | .checked => authenticated = false
  | .confirmed => False
  | .accepted | .hello .. | .installed | .loaded | .revoking | .revoked | .ended => True

/-- What holds from the moment on at which the files lose `q`; `fresh` streams had not looked at
the connection by then, and there were `k` grants and `j` installations. -/
structure AuthConnection.Withheld (sources : AuthSources) (q : AuthIdentity) (fresh : ℕ → Prop)
    (k j : ℕ) (s : AuthConnection) : Prop where
  files : sources.principalCurrent s.files q = false
  hello : ∀ phase ∈ s.streams, ∀ files, phase ≠ .hello q files
  installed : s.principal = some q → ∀ phase ∈ s.streams, phase ≠ .installed
  waits : s.principal = some q → ∀ n, fresh n → ∀ phase, s.streams[n]? = some phase →
    phase.Waits q s.authenticated
  grants : k ≤ s.grants.length ∧ ∀ g ∈ s.grants.drop k, fresh g.stream → g.principal ≠ q
  installs : j ≤ s.installs.length ∧ ∀ x ∈ s.installs.drop j, x.1 ≠ q

namespace AuthConnection

theorem getElem?_put {m : ℕ} {phase phase' : AuthPhase}
    (h : (s.put n phase).streams[m]? = some phase') :
    phase' = phase ∧ m = n ∨ s.streams[m]? = some phase' := by
  simp only [AuthConnection.put, List.getElem?_set] at h
  split_ifs at h with hm hlt
  · exact .inl ⟨(Option.some.inj h).symm, hm.symm⟩
  · exact .inr h

theorem Withheld.put (h : s.Withheld sources q fresh k j) (n : ℕ) (phase : AuthPhase)
    (hhello : ∀ files, phase ≠ .hello q files) (hinstalled : phase ≠ .installed)
    (hwaits : s.principal = some q → fresh n → phase.Waits q s.authenticated) :
    (s.put n phase).Withheld sources q fresh k j := by
  refine ⟨h.files, fun phase' hmem => ?_, fun hq phase' hmem => ?_, fun hq m hm phase' hphase => ?_,
    h.grants, h.installs⟩
  · rcases mem_streams_put hmem with hmem | rfl
    · exact h.hello phase' hmem
    · exact hhello
  · rcases mem_streams_put hmem with hmem | rfl
    · exact h.installed hq phase' hmem
    · exact hinstalled
  · rcases getElem?_put hphase with ⟨rfl, rfl⟩ | hphase
    · exact hwaits hq hm
    · exact h.waits hq m hm phase' hphase

theorem Withheld.advance {phase : AuthPhase} (h : s.Withheld sources q fresh k j)
    (hn : s.streams[n]? = some phase) (hact : s.advance sources n phase = some s') :
    s'.Withheld sources q fresh k j := by
  have hmem := List.mem_of_getElem? hn
  cases phase with
  | accepted =>
    cases hact
    cases hflag : s.authenticated with
    | true => exact h.put n _ (by simp) (by simp) fun _ _ => trivial
    | false => exact h.put n _ (by simp) (by simp) fun _ _ => hflag
  | hello candidate files =>
    have hother : candidate ≠ q := fun heq => h.hello _ hmem files (heq ▸ rfl)
    simp only [AuthConnection.advance] at hact
    split_ifs at hact with hconflict
    · cases hact
      exact h.put n _ (by simp) (by simp) fun _ _ => trivial
    · -- another principal takes the place of `q`
      cases hact
      have hnot : ¬ some candidate = some q := fun heq => hother (Option.some.inj heq)
      refine ⟨h.files, fun phase' hmem' => ?_, fun hq => absurd hq hnot, fun hq => absurd hq hnot,
        h.grants, ?_⟩
      · rcases mem_streams_put hmem' with hmem' | rfl
        · exact h.hello phase' hmem'
        · exact nofun
      · refine ⟨by simpa using h.installs.1.trans (Nat.le_succ _), fun x hx => ?_⟩
        rw [List.drop_append_of_le_length h.installs.1] at hx
        rcases List.mem_append.mp hx with hx | hx
        · exact h.installs.2 x hx
        · rwa [List.mem_singleton.mp hx]
  | installed =>
    -- the flag is set only after another principal was installed
    cases hact
    have hnot : ¬ s.principal = some q := fun hq => h.installed hq _ hmem rfl
    have hput := h.put n .ended (by simp) (by simp) fun _ _ => trivial
    exact ⟨hput.files, hput.hello, hput.installed, fun hq => absurd hq hnot, hput.grants,
      hput.installs⟩
  | loaded =>
    cases hact
    exact h.put n _ (by simp) (by simp) fun hq _ => hq
  | held current =>
    cases hact
    refine h.put n _ (by split_ifs <;> simp) (by split_ifs <;> simp) fun hq hfresh => ?_
    have hcurrent : current = some q := h.waits hq n hfresh _ hn
    rw [hcurrent, Option.any_some, h.files, if_neg Bool.false_ne_true]
    trivial
  | revoking =>
    cases hact
    have hput := h.put n .revoked (by simp) (by simp) fun _ _ => trivial
    refine ⟨hput.files, hput.hello, hput.installed, fun hq m hm phase' hphase => ?_, hput.grants,
      hput.installs⟩
    have hwaits := hput.waits hq m hm phase' hphase
    cases phase' with
    | checked => rfl
    | held | confirmed => exact hwaits
    | accepted | hello | installed | loaded | revoking | revoked | ended => trivial
  | revoked =>
    cases hact
    refine ⟨h.files, fun phase' hmem' => ?_, nofun, nofun, h.grants, h.installs⟩
    rcases mem_streams_put hmem' with hmem' | rfl
    · exact h.hello phase' hmem'
    · exact nofun
  | checked =>
    cases hact
    refine h.put n _ (by split_ifs <;> simp) (by split_ifs <;> simp) fun hq hfresh => ?_
    have hflag : s.authenticated = false := h.waits hq n hfresh _ hn
    rw [hflag, if_neg Bool.false_ne_true]
    trivial
  | confirmed | ended => cases hact

theorem Withheld.act {action : ConnectionAction} (h : s.Withheld sources q fresh k j)
    (hwithholds : action.withholds sources q = true) (hact : s.act sources peer action = some s') :
    s'.Withheld sources q fresh k j := by
  cases action with
  | rewrite files =>
    cases hact
    exact ⟨(Bool.not_eq_true' _).mp hwithholds, h.hello, h.installed, h.waits, h.grants, h.installs⟩
  | accept =>
    cases hact
    refine ⟨h.files, fun phase hmem => ?_, fun hq phase hmem => ?_, fun hq n hn phase hphase => ?_,
      h.grants, h.installs⟩
    · rcases Parties.mem_concat hmem with hmem | rfl
      · exact h.hello phase hmem
      · exact nofun
    · rcases Parties.mem_concat hmem with hmem | rfl
      · exact h.installed hq phase hmem
      · exact nofun
    · rcases Nat.lt_or_ge n s.streams.length with hlt | hge
      · rw [List.getElem?_append_left hlt] at hphase
        exact h.waits hq n hn phase hphase
      · rw [List.getElem?_append_right hge] at hphase
        rw [List.mem_singleton.mp (List.mem_of_getElem? hphase)]
        trivial
  | hello n provided =>
    simp only [AuthConnection.act] at hact
    split_ifs at hact
    obtain ⟨candidate, hcandidate, rfl⟩ := Option.map_eq_some_iff.mp hact
    refine h.put n _ (fun files heq => ?_) nofun fun _ _ => trivial
    cases heq
    exact absurd (AuthSources.helloPrincipal_current hcandidate) (Bool.eq_false_iff.mp h.files)
  | advance n =>
    obtain ⟨phase, hn, hact⟩ := Option.bind_eq_some_iff.mp hact
    exact h.advance hn hact
  | grant n owner scope =>
    obtain ⟨p, hp, hact⟩ := Option.bind_eq_some_iff.mp hact
    split_ifs at hact with hgrant
    cases hact
    refine ⟨h.files, h.hello, h.installed, h.waits, ?_, h.installs⟩
    refine ⟨by simpa using h.grants.1.trans (Nat.le_succ _), fun g hg hn => ?_⟩
    rw [List.drop_append_of_le_length h.grants.1] at hg
    rcases Parties.mem_concat hg with hg | rfl
    · exact h.grants.2 g hg hn
    · rintro rfl
      exact h.waits hp n hn _ hgrant.1
  | leave n =>
    cases hact
    exact h.put n _ nofun nofun fun _ _ => trivial

end AuthConnection

end Revoked

end Asp
