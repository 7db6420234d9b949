import Asp.Lib.Parties
import Asp.Spec.OpenSession

/-! OPEN_SESSION over crashes and restarts. When no directory is left half made, both
alias tables name the session of every request that has one, so a retry finds it. -/

namespace Asp

open Std Lookup

theorem loadSessionOwner_eq {id : String} (hvalid : validPrincipalId id = true)
    (htrim : trim id = id) : loadSessionOwner (some id) = .ok id := by
  simp only [validPrincipalId, Bool.and_eq_true, decide_eq_true_eq, Bool.not_eq_true'] at hvalid
  obtain ⟨⟨hpos, hle⟩, hnul⟩ := hvalid
  have hne : id.isEmpty = false := by
    rw [String.isEmpty, beq_eq_false_iff_ne]
    omega
  simp only [loadSessionOwner, htrim, hne, hnul, Bool.false_or, Bool.or_false]
  rw [if_neg (by omega), if_neg (by simpa using hle)]

/-- A directory that a request has finished for its principal. -/
structure SessionDirectory.Whole (directory : SessionDirectory) (principal : String) : Prop where
  owner : directory.owner = some principal
  loads : loadSessionOwner (some principal) = .ok principal
  created : directory.log.head?.map Event.kind = some .sessionCreated

theorem SessionDirectory.Whole.append {directory : SessionDirectory} {principal : String}
    (h : directory.Whole principal) (event : Event) :
    { directory with log := directory.log ++ [event] }.Whole principal := by
  refine ⟨h.owner, h.loads, ?_⟩
  have hcreated := h.created
  cases hlog : directory.log with
  | nil =>
    rw [hlog] at hcreated
    cases hcreated
  | cons first rest =>
    rwa [hlog] at hcreated

section Aliases

variable {issued issued' table : ExtTreeMap Uuid Uuid}
  {directories directories' : ExtTreeMap Uuid SessionDirectory} {requestId id : Uuid}

/-- The table names only what was drawn for a request, and it names every directory. -/
structure Covers (issued : ExtTreeMap Uuid Uuid) (directories : ExtTreeMap Uuid SessionDirectory)
    (table : ExtTreeMap Uuid Uuid) : Prop where
  drawn : ∀ requestId id : Uuid, table[requestId]? = some id → issued[id]? = some requestId
  listed : ∀ id requestId : Uuid, id ∈ directories → issued[id]? = some requestId →
    table[requestId]? = some id

def Vacant (issued : ExtTreeMap Uuid Uuid) (directories : ExtTreeMap Uuid SessionDirectory)
    (requestId : Uuid) : Prop :=
  ∀ id, id ∈ directories → issued[id]? ≠ some requestId

namespace Covers

section

variable (h : Covers issued directories table)

include h

theorem erase (hvacant : Vacant issued directories requestId) :
    Covers issued directories (table.erase requestId) where
  drawn r id hget := h.drawn r id (getElem?_of_erase hget).2
  listed id r hid hr := by
    have hne : r ≠ requestId := fun heq => hvacant id hid (heq ▸ hr)
    rw [getElem?_erase_of_ne hne]
    exact h.listed id r hid hr

theorem insert (hissued : issued[id]? = some requestId)
    (hvacant : Vacant issued directories requestId) :
    Covers issued directories (table.insert requestId id) where
  drawn r id' hget := by
    rcases getElem?_insert_cases hget with ⟨rfl, rfl⟩ | ⟨-, hold⟩
    · exact hissued
    · exact h.drawn r id' hold
  listed id' r hid' hr := by
    have hne : r ≠ requestId := fun heq => hvacant id' hid' (heq ▸ hr)
    rw [getElem?_insert_of_ne hne]
    exact h.listed id' r hid' hr

theorem draw (hdirectories : ∀ id, id ∈ directories → id ∈ issued) (hid : id ∉ issued) :
    Covers (issued.insert id requestId) directories table where
  drawn r id' hget := by
    have hold := h.drawn r id' hget
    have hne : id' ≠ id := fun heq => hid (heq ▸ mem_of_getElem? hold)
    rwa [getElem?_insert_of_ne hne]
  listed id' r hid' hr := by
    have hne : id' ≠ id := fun heq => hid (heq ▸ hdirectories id' hid')
    rw [getElem?_insert_of_ne hne] at hr
    exact h.listed id' r hid' hr

theorem make (hissued : issued[id]? = some requestId) (hlisted : table[requestId]? = some id)
    (hdirectories : ∀ id', id' ∈ directories' → id' = id ∨ id' ∈ directories) :
    Covers issued directories' table where
  drawn := h.drawn
  listed id' r hid' hr := by
    rcases hdirectories id' hid' with rfl | hold
    · obtain rfl := Option.some.inj (hissued.symm.trans hr)
      exact hlisted
    · exact h.listed id' r hold hr

theorem congr (hdirectories : ∀ id, id ∈ directories' → id ∈ directories) :
    Covers issued directories' table :=
  ⟨h.drawn, fun id r hid hr => h.listed id r (hdirectories id hid) hr⟩

theorem unique {id' : Uuid} (hid : id ∈ directories) (hissued : issued[id]? = some requestId)
    (hid' : id' ∈ directories) (hissued' : issued[id']? = some requestId) : id = id' :=
  Option.some.inj ((h.listed id requestId hid hissued).symm.trans
    (h.listed id' requestId hid' hissued'))

end

end Covers

theorem Vacant.draw (h : Vacant issued directories requestId)
    (hdirectories : ∀ id, id ∈ directories → id ∈ issued) (hid : id ∉ issued) :
    Vacant (issued.insert id requestId) directories requestId := by
  intro id' hid' hr
  have hne : id' ≠ id := fun heq => hid (heq ▸ hdirectories id' hid')
  rw [getElem?_insert_of_ne hne] at hr
  exact h id' hid' hr

end Aliases

namespace SessionStore

variable {st : SessionStore} {d : LiveStore} {o : Opening} {requestId id : Uuid}

variable {f : SessionDirectory → SessionDirectory}

def Progress (st : SessionStore) (d : LiveStore) (o : Opening) : Prop :=
  match o.next with
  | .aliases => d.openRequests[o.requestId]? = some o.id ∧
      Vacant st.issued st.directories o.requestId
  | .directory => d.openRequests[o.requestId]? = some o.id ∧
      st.aliasFile[o.requestId]? = some o.id ∧ Vacant st.issued st.directories o.requestId
  | .owner => st.directories[o.id]? = some ⟨none, []⟩
  | .created => st.directories[o.id]? = some ⟨some o.principal, []⟩
  | .forget => Vacant st.issued st.directories o.requestId

structure Runs (st : SessionStore) (d : LiveStore) : Prop where
  covers : Covers st.issued st.directories d.openRequests
  sessions : ∀ (id : Uuid) session, d.sessions[id]? = some session →
    ∃ directory, st.directories[id]? = some directory ∧ directory.Whole session.owner
  live : ∀ id, id ∈ st.directories → id ∈ d.sessions ∨ d.making = some id
  opening : ∀ o, d.opening = some o → st.issued[o.id]? = some o.requestId ∧
    loadSessionOwner (some o.principal) = .ok o.principal ∧ st.Progress d o

structure Sound (st : SessionStore) : Prop where
  issued : ∀ id, id ∈ st.directories → id ∈ st.issued
  covers : Covers st.issued st.directories st.aliasFile
  whole : ∀ (id : Uuid) directory, st.directories[id]? = some directory →
    (∃ principal, directory.Whole principal) ∨ st.daemon.bind LiveStore.making = some id
  answers : ∀ answer ∈ st.answers, st.issued[answer.id]? = some answer.requestId ∧
    ∃ directory, st.directories[answer.id]? = some directory ∧ directory.Whole answer.principal
  daemon : ∀ d, st.daemon = some d → st.Runs d

theorem initial_sound : initial.Sound := by
  refine ⟨?_, ⟨?_, ?_⟩, ?_, ?_, ?_⟩
  · exact fun id hid => absurd hid ExtTreeMap.not_mem_empty
  · exact fun r id h => absurd (mem_of_getElem? h) ExtTreeMap.not_mem_empty
  · exact fun id r hid => absurd hid ExtTreeMap.not_mem_empty
  · exact fun id directory h => absurd (mem_of_getElem? h) ExtTreeMap.not_mem_empty
  · exact fun answer h => absurd h List.not_mem_nil
  · intro d h
    cases h

theorem making_of_idle (hidle : d.opening = none) : d.making = none := by
  rw [LiveStore.making, hidle, Option.bind_none]

theorem Runs.of_idle (hidle : d.opening = none)
    (hcovers : Covers st.issued st.directories d.openRequests)
    (hsessions : ∀ (id : Uuid) session, d.sessions[id]? = some session →
      ∃ directory, st.directories[id]? = some directory ∧ directory.Whole session.owner)
    (hlive : ∀ id, id ∈ st.directories → id ∈ d.sessions) : st.Runs d := by
  refine ⟨hcovers, hsessions, fun id hid => .inl (hlive id hid), fun o ho => ?_⟩
  cases hidle.symm.trans ho

theorem Runs.live_of_idle (h : st.Runs d) (hmaking : d.making = none) (hid : id ∈ st.directories) :
    id ∈ d.sessions := by
  rcases h.live id hid with hlive | hmade
  · exact hlive
  · cases hmaking.symm.trans hmade

theorem Runs.vacant (h : st.Runs d) (hidle : d.opening = none)
    (hmiss : ((d.openRequests[requestId]?).bind fun id =>
      (d.sessions[id]?).map fun s => (id, s)) = none) :
    Vacant st.issued st.directories requestId := by
  intro id hid hissued
  obtain ⟨session, hsession⟩ := getElem?_of_mem (h.live_of_idle (making_of_idle hidle) hid)
  rw [h.covers.listed id requestId hid hissued, Option.bind_some, hsession] at hmiss
  cases hmiss

theorem Sound.whole_of_idle (h : st.Sound) (hmaking : st.daemon.bind LiveStore.making = none)
    {directory : SessionDirectory} (hget : st.directories[id]? = some directory) :
    ∃ principal, directory.Whole principal := by
  rcases h.whole id directory hget with hwhole | hmade
  · exact hwhole
  · cases hmaking.symm.trans hmade

theorem Sound.answer (h : st.Sound) (answer : OpenAnswer)
    (hissued : st.issued[answer.id]? = some answer.requestId) {directory : SessionDirectory}
    (hget : st.directories[answer.id]? = some directory)
    (hwhole : directory.Whole answer.principal) :
    { st with answers := st.answers ++ [answer] }.Sound := by
  refine ⟨h.issued, h.covers, h.whole, fun answer' hanswer => ?_, fun d hd => ?_⟩
  · rcases Parties.mem_concat hanswer with hold | rfl
    · exact h.answers answer' hold
    · exact ⟨hissued, directory, hget, hwhole⟩
  · have hruns := h.daemon d hd
    exact ⟨hruns.covers, hruns.sessions, hruns.live, hruns.opening⟩

theorem Sound.setDaemon (h : st.Sound) (hmaking : st.daemon.bind LiveStore.making = none)
    {aliasFile : ExtTreeMap Uuid Uuid} (haliases : Covers st.issued st.directories aliasFile)
    {daemon : Option LiveStore}
    (hruns : ∀ d, daemon = some d → { st with aliasFile, daemon }.Runs d) :
    { st with aliasFile, daemon }.Sound :=
  ⟨h.issued, haliases, fun _ _ hget => .inl (h.whole_of_idle hmaking hget), h.answers, hruns⟩

theorem Sound.draw (h : st.Sound) (o : Opening) (hruns : st.Runs d)
    (hmaking : st.daemon.bind LiveStore.making = none) (hmade : d.making = none)
    (hfresh : o.id ∉ st.issued) (hvacant : Vacant st.issued st.directories o.requestId)
    (hloads : loadSessionOwner (some o.principal) = .ok o.principal) (hnext : o.next = .aliases) :
    { st with
      daemon := some { d with
        openRequests := (d.openRequests.erase o.requestId).insert o.requestId o.id
        opening := some o }
      issued := st.issued.insert o.id o.requestId }.Sound := by
  have hself : (st.issued.insert o.id o.requestId)[o.id]? = some o.requestId :=
    ExtTreeMap.getElem?_insert_self
  have hdrawn : ∀ (id r : Uuid), st.issued[id]? = some r →
      (st.issued.insert o.id o.requestId)[id]? = some r := by
    intro id r hget
    have hne : id ≠ o.id := fun heq => hfresh (heq ▸ mem_of_getElem? hget)
    exact (getElem?_insert_of_ne hne).trans hget
  have hvacant' := hvacant.draw h.issued hfresh
  refine ⟨fun id hid => ?_, h.covers.draw h.issued hfresh,
    fun _ _ hget => .inl (h.whole_of_idle hmaking hget), fun answer hanswer => ?_, fun d' hd' => ?_⟩
  · obtain ⟨r, hr⟩ := getElem?_of_mem (h.issued id hid)
    exact mem_of_getElem? (hdrawn id r hr)
  · obtain ⟨hissued, hwhole⟩ := h.answers answer hanswer
    exact ⟨hdrawn _ _ hissued, hwhole⟩
  · cases hd'
    refine ⟨((hruns.covers.erase hvacant).draw h.issued hfresh).insert hself hvacant',
      hruns.sessions, fun id hid => .inl (hruns.live_of_idle hmade hid), fun o' ho => ?_⟩
    cases ho
    refine ⟨hself, hloads, ?_⟩
    rw [Progress, hnext]
    exact ⟨ExtTreeMap.getElem?_insert_self, hvacant'⟩

theorem openSession_sound (h : st.Sound) (hd : st.daemon = some d) (hidle : d.opening = none)
    {principal : AuthPrincipal} (hvalid : validPrincipalId principal.id = true)
    (htrim : trim principal.id = principal.id) (hfresh : id ∉ st.issued) :
    (st.openSession d requestId principal id).Sound := by
  have hruns := h.daemon d hd
  have hmaking : st.daemon.bind LiveStore.making = none := by
    rw [hd, Option.bind_some, making_of_idle hidle]
  unfold openSession
  split_ifs with hscope
  · exact h
  · split
    · rename_i id' session hhit
      split_ifs with howner
      · exact h
      · obtain ⟨id'', halias, hlive⟩ := Option.bind_eq_some_iff.mp hhit
        obtain ⟨session', hsession, heq⟩ := Option.map_eq_some_iff.mp hlive
        obtain ⟨rfl, rfl⟩ := Prod.mk.inj heq
        obtain ⟨directory, hget, hwhole⟩ := hruns.sessions _ _ hsession
        exact h.answer ⟨requestId, principal.id, id''⟩ (hruns.covers.drawn _ _ halias) hget
          (not_not.mp howner ▸ hwhole)
    · rename_i hmiss
      have hvacant := hruns.vacant hidle hmiss
      dsimp only
      split_ifs with hfull
      · refine h.setDaemon hmaking h.covers fun d' hd' => ?_
        cases hd'
        exact .of_idle hidle (hruns.covers.erase hvacant) hruns.sessions fun id hid =>
          hruns.live_of_idle (making_of_idle hidle) hid
      · exact h.draw ⟨requestId, principal.id, id, .aliases⟩ hruns hmaking (making_of_idle hidle)
          hfresh hvacant (loadSessionOwner_eq hvalid htrim) rfl

theorem abandon_sound (h : st.Sound) (hruns : st.Runs d)
    (hmaking : st.daemon.bind LiveStore.making = none) (hmade : d.making = none)
    (hopening : d.opening = some o) (hvacant : Vacant st.issued st.directories o.requestId)
    {next : Option OpenStep} (hnext : next = none ∨ next = some .forget) :
    (st.abandon d o next).Sound := by
  refine h.setDaemon hmaking h.covers fun d' hd' => ?_
  cases hd'
  refine ⟨hruns.covers.erase hvacant, hruns.sessions,
    fun id hid => .inl (hruns.live_of_idle hmade hid), fun o' ho => ?_⟩
  obtain ⟨next', hsome, rfl⟩ := Option.map_eq_some_iff.mp ho
  obtain ⟨hissued, hloads, -⟩ := hruns.opening o hopening
  refine ⟨hissued, hloads, ?_⟩
  rcases hnext with rfl | rfl
  · cases hsome
  · cases hsome
    exact hvacant

theorem making_eq_none (hd : st.daemon = some d) (hopening : d.opening = some o)
    (hnext : o.next ≠ .owner ∧ o.next ≠ .created) :
    d.making = none ∧ st.daemon.bind LiveStore.making = none := by
  have hmade : d.making = none := by
    rw [LiveStore.making, hopening, Option.bind_some, if_neg (not_or.mpr hnext)]
  exact ⟨hmade, by rw [hd, Option.bind_some, hmade]⟩

theorem making_eq_some (hopening : d.opening = some o) (hnext : o.next = .owner ∨ o.next = .created) :
    d.making = some o.id := by
  rw [LiveStore.making, hopening, Option.bind_some, if_pos hnext]

theorem whole_modify (hf : ∀ directory principal, st.directories[id]? = some directory →
      directory.Whole principal → (f directory).Whole principal) {id' : Uuid} {principal : String}
    (h : ∃ directory, st.directories[id']? = some directory ∧ directory.Whole principal) :
    ∃ directory, (st.directories.modify id f)[id']? = some directory ∧
      directory.Whole principal := by
  obtain ⟨directory, hget, hwhole⟩ := h
  rcases eq_or_ne id' id with rfl | hne
  · refine ⟨f directory, ?_, hf directory principal hget hwhole⟩
    rw [ExtTreeMap.getElem?_modify_self, hget, Option.map_some]
  · exact ⟨directory, (getElem?_modify_of_ne hne).trans hget, hwhole⟩

theorem Sound.modify (h : st.Sound)
    (hf : ∀ directory principal, st.directories[id]? = some directory →
      directory.Whole principal → (f directory).Whole principal) (daemon : Option LiveStore)
    (hwhole : ∀ directory, st.directories[id]? = some directory →
      (∃ principal, (f directory).Whole principal) ∨ daemon.bind LiveStore.making = some id)
    (hother : ∀ id', id' ≠ id → st.daemon.bind LiveStore.making = some id' →
      daemon.bind LiveStore.making = some id') (hruns : ∀ d, daemon = some d →
      { st with directories := st.directories.modify id f, daemon }.Runs d) :
    { st with directories := st.directories.modify id f, daemon }.Sound := by
  refine ⟨fun id' hid' => h.issued id' (ExtTreeMap.mem_modify.mp hid'),
    h.covers.congr fun _ => ExtTreeMap.mem_modify.mp, fun id' directory hget => ?_,
    fun answer hanswer => ?_, hruns⟩
  · rcases getElem?_modify_cases hget with ⟨rfl, before, hbefore, rfl⟩ | ⟨hne, hbefore⟩
    · exact hwhole before hbefore
    · exact (h.whole id' directory hbefore).imp_right (hother id' hne)
  · obtain ⟨hissued, hreturned⟩ := h.answers answer hanswer
    exact ⟨hissued, whole_modify hf hreturned⟩

section Io

variable (h : st.Sound) (hd : st.daemon = some d) (hopening : d.opening = some o)
  (outcome : IoOutcome) (unixMs : ℕ)

include h hd hopening

theorem aliasesStep_sound (hnext : o.next = .aliases) : (st.ioStep d o outcome unixMs).Sound := by
  have hruns := h.daemon d hd
  obtain ⟨hmade, hmaking⟩ := making_eq_none hd hopening (by simp [hnext])
  obtain ⟨hissued, hloads, hprogress⟩ := hruns.opening o hopening
  rw [Progress, hnext] at hprogress
  obtain ⟨halias, hvacant⟩ := hprogress
  have hwritten : { st with aliasFile := d.openRequests }.Sound := by
    refine h.setDaemon hmaking hruns.covers fun d' hd' => ?_
    obtain rfl := Option.some.inj (hd.symm.trans hd')
    refine ⟨hruns.covers, hruns.sessions, hruns.live, fun o' ho' => ?_⟩
    obtain rfl := Option.some.inj (hopening.symm.trans ho')
    refine ⟨hissued, hloads, ?_⟩
    rw [Progress, hnext]
    exact ⟨halias, hvacant⟩
  have hruns' : { st with aliasFile := d.openRequests }.Runs d := hwritten.daemon d hd
  simp only [ioStep, hnext]
  cases outcome with
  | ok =>
    refine hwritten.setDaemon hmaking hwritten.covers fun d' hd' => ?_
    cases hd'
    refine ⟨hruns.covers, hruns.sessions, fun id hid => .inl (hruns.live_of_idle hmade hid),
      fun o' ho' => ?_⟩
    cases ho'
    exact ⟨hissued, hloads, halias, halias, hvacant⟩
  | failed applied =>
    cases applied with
    | true => exact abandon_sound hwritten hruns' hmaking hmade hopening hvacant (.inl rfl)
    | false => exact abandon_sound h hruns hmaking hmade hopening hvacant (.inl rfl)

theorem directoryStep_sound (hnext : o.next = .directory) (hwhole : outcome ≠ .failed true) :
    (st.ioStep d o outcome unixMs).Sound := by
  have hruns := h.daemon d hd
  obtain ⟨hmade, hmaking⟩ := making_eq_none hd hopening (by simp [hnext])
  obtain ⟨hissued, hloads, hprogress⟩ := hruns.opening o hopening
  rw [Progress, hnext] at hprogress
  obtain ⟨halias, hfile, hvacant⟩ := hprogress
  have hnew : o.id ∉ st.directories := fun hid => hvacant o.id hid hissued
  have hkeep : ∀ (id : Uuid) directory, st.directories[id]? = some directory →
      (st.directories.insert o.id ⟨none, []⟩)[id]? = some directory := by
    intro id directory hget
    have hne : id ≠ o.id := fun heq => hnew (heq ▸ mem_of_getElem? hget)
    exact (getElem?_insert_of_ne hne).trans hget
  have hcases : ∀ id, id ∈ st.directories.insert o.id ⟨none, []⟩ → id = o.id ∨ id ∈ st.directories := by
    intro id hid
    obtain ⟨directory, hget⟩ := getElem?_of_mem hid
    rcases getElem?_insert_cases hget with ⟨rfl, -⟩ | ⟨-, hold⟩
    · exact .inl rfl
    · exact .inr (mem_of_getElem? hold)
  simp only [ioStep, hnext]
  cases outcome with
  | ok =>
    refine ⟨fun id hid => ?_, h.covers.make hissued hfile hcases, fun id directory hget => ?_,
      fun answer hanswer => ?_, fun d' hd' => ?_⟩
    · rcases hcases id hid with rfl | hold
      · exact mem_of_getElem? hissued
      · exact h.issued id hold
    · rcases getElem?_insert_cases hget with ⟨rfl, -⟩ | ⟨-, hold⟩
      · exact .inr rfl
      · exact .inl (h.whole_of_idle hmaking hold)
    · obtain ⟨hdrawn, directory, hget, hwhole⟩ := h.answers answer hanswer
      exact ⟨hdrawn, directory, hkeep _ _ hget, hwhole⟩
    · cases hd'
      refine ⟨hruns.covers.make hissued halias hcases, fun id session hsession => ?_,
        fun id hid => ?_, fun o' ho' => ?_⟩
      · obtain ⟨directory, hget, hwhole⟩ := hruns.sessions id session hsession
        exact ⟨directory, hkeep _ _ hget, hwhole⟩
      · rcases hcases id hid with rfl | hold
        · exact .inr rfl
        · exact .inl (hruns.live_of_idle hmade hold)
      · cases ho'
        exact ⟨hissued, hloads, ExtTreeMap.getElem?_insert_self⟩
  | failed applied =>
    cases applied with
    | true => exact absurd rfl hwhole
    | false => exact abandon_sound h hruns hmaking hmade hopening hvacant (.inr rfl)

theorem ownerStep_sound (hnext : o.next = .owner) : (st.ioStep d o .ok unixMs).Sound := by
  have hruns := h.daemon d hd
  obtain ⟨hissued, hloads, hprogress⟩ := hruns.opening o hopening
  rw [Progress, hnext] at hprogress
  have hmade : d.making = some o.id := making_eq_some hopening (.inl hnext)
  -- nothing depends on a directory without an owner
  have hf : ∀ directory principal, st.directories[o.id]? = some directory →
      directory.Whole principal → { directory with owner := some o.principal }.Whole principal := by
    intro directory principal hget hwhole
    obtain rfl := Option.some.inj (hprogress.symm.trans hget)
    cases hwhole.owner
  simp only [ioStep, hnext]
  refine h.modify hf _ (fun _ _ => .inr rfl) (fun id' hne => ?_) fun d' hd' => ?_
  · rw [hd, Option.bind_some, hmade]
    exact fun heq => absurd (Option.some.inj heq).symm hne
  · cases hd'
    refine ⟨hruns.covers.congr fun _ => ExtTreeMap.mem_modify.mp,
      fun id session hsession => whole_modify hf (hruns.sessions id session hsession),
      fun id hid => ?_, fun o' ho' => ?_⟩
    · exact (hruns.live id (ExtTreeMap.mem_modify.mp hid)).imp_right fun heq => hmade.symm.trans heq
    · cases ho'
      refine ⟨hissued, hloads, ?_⟩
      exact ExtTreeMap.getElem?_modify_self.trans (by rw [hprogress]; rfl)

theorem createdStep_sound (hnext : o.next = .created) : (st.ioStep d o .ok unixMs).Sound := by
  have hruns := h.daemon d hd
  obtain ⟨hissued, hloads, hprogress⟩ := hruns.opening o hopening
  rw [Progress, hnext] at hprogress
  have hmade : d.making = some o.id := making_eq_some hopening (.inr hnext)
  simp only [ioStep, hnext, IoOutcome.applied, if_true]
  set event := ((Journal.fromLoaded {}).append unixMs .sessionCreated).2 with hevent
  have hwhole : ∀ directory, st.directories[o.id]? = some directory →
      { directory with log := directory.log ++ [event] }.Whole o.principal := by
    intro directory hget
    obtain rfl := Option.some.inj (hprogress.symm.trans hget)
    exact ⟨rfl, hloads, rfl⟩
  have hf : ∀ directory principal, st.directories[o.id]? = some directory →
      directory.Whole principal →
      { directory with log := directory.log ++ [event] }.Whole principal :=
    fun _ _ _ hold => hold.append event
  have hreturned : (st.directories.modify o.id fun directory =>
      { directory with log := directory.log ++ [event] })[o.id]? =
        some ⟨some o.principal, [event]⟩ :=
    ExtTreeMap.getElem?_modify_self.trans (by rw [hprogress]; rfl)
  set live : LiveStore := { d with
    sessions := d.sessions.insert o.id ⟨o.principal, _⟩
    opening := none }
  refine Sound.answer (h.modify hf (some live) (fun directory hget => .inl ⟨_, hwhole directory hget⟩)
    (fun id' hne => ?_) fun d' hd' => ?_) ⟨o.requestId, o.principal, o.id⟩ hissued hreturned
    (hwhole _ hprogress)
  · rw [hd, Option.bind_some, hmade]
    exact fun heq => absurd (Option.some.inj heq).symm hne
  · cases hd'
    refine .of_idle rfl (hruns.covers.congr fun _ => ExtTreeMap.mem_modify.mp)
      (fun id session hsession => ?_) fun id hid => ?_
    · rcases getElem?_insert_cases hsession with ⟨rfl, rfl⟩ | ⟨-, hold⟩
      · exact ⟨_, hreturned, hwhole _ hprogress⟩
      · exact whole_modify hf (hruns.sessions id session hold)
    · rcases hruns.live id (ExtTreeMap.mem_modify.mp hid) with hlive | heq
      · exact ExtTreeMap.mem_insert.mpr (.inr hlive)
      · obtain rfl := Option.some.inj (hmade.symm.trans heq)
        exact ExtTreeMap.mem_insert_self

theorem forgetStep_sound (hnext : o.next = .forget) : (st.ioStep d o outcome unixMs).Sound := by
  have hruns := h.daemon d hd
  obtain ⟨hmade, hmaking⟩ := making_eq_none hd hopening (by simp [hnext])
  have hidle : ∀ aliasFile d', some { d with opening := none } = some d' →
      { st with aliasFile, daemon := some { d with opening := none } }.Runs d' := by
    intro aliasFile d' hd'
    cases hd'
    exact .of_idle rfl hruns.covers hruns.sessions fun id hid => hruns.live_of_idle hmade hid
  simp only [ioStep, hnext]
  split_ifs
  · exact h.setDaemon hmaking hruns.covers (hidle _)
  · exact h.setDaemon hmaking h.covers (hidle _)

end Io

theorem Vacant.modify {issued : ExtTreeMap Uuid Uuid}
    {directories : ExtTreeMap Uuid SessionDirectory} (h : Vacant issued directories requestId) :
    Vacant issued (directories.modify id f) requestId :=
  fun id' hid' => h id' (ExtTreeMap.mem_modify.mp hid')

theorem Runs.progress_modify (h : st.Runs d) {session : LiveSession}
    (hlive : d.sessions[id]? = some session) (f : SessionDirectory → SessionDirectory)
    (d' : LiveStore) (hrequests : d'.openRequests = d.openRequests) (hprogress : st.Progress d o) :
    { st with directories := st.directories.modify id f, daemon := some d' }.Progress d' o := by
  obtain ⟨directory, hget, hwhole⟩ := h.sessions id session hlive
  unfold Progress at hprogress ⊢
  rw [hrequests]
  cases hnext : o.next with
  | aliases =>
    rw [hnext] at hprogress
    exact ⟨hprogress.1, Vacant.modify hprogress.2⟩
  | directory =>
    rw [hnext] at hprogress
    exact ⟨hprogress.1, hprogress.2.1, Vacant.modify hprogress.2.2⟩
  | owner =>
    rw [hnext] at hprogress
    refine (getElem?_modify_of_ne ?_).trans hprogress
    rintro rfl
    obtain rfl := Option.some.inj (hprogress.symm.trans hget)
    cases hwhole.owner
  | created =>
    rw [hnext] at hprogress
    refine (getElem?_modify_of_ne ?_).trans hprogress
    rintro rfl
    obtain rfl := Option.some.inj (hprogress.symm.trans hget)
    cases hwhole.created
  | forget =>
    rw [hnext] at hprogress
    exact Vacant.modify hprogress

theorem append_sound (h : st.Sound) (hd : st.daemon = some d) {session : LiveSession}
    (hlive : d.sessions[id]? = some session) (unixMs : ℕ) (kind : EventKind) :
    (st.append d id session unixMs kind).Sound := by
  have hruns := h.daemon d hd
  obtain ⟨directory, hget, hwhole⟩ := hruns.sessions id session hlive
  set event := (session.journal.append unixMs kind).2
  have hf : ∀ directory principal, st.directories[id]? = some directory →
      directory.Whole principal →
      { directory with log := directory.log ++ [event] }.Whole principal :=
    fun _ _ _ hwhole => hwhole.append event
  refine h.modify hf _ (fun directory' hget' => ?_) (fun id' _ hmade => ?_) fun d' hd' => ?_
  · obtain rfl := Option.some.inj (hget.symm.trans hget')
    exact .inl ⟨_, hwhole.append event⟩
  · rwa [hd] at hmade
  · cases hd'
    refine ⟨hruns.covers.congr fun _ => ExtTreeMap.mem_modify.mp, fun id' session' hsession => ?_,
      fun id' hid' => ?_, fun o ho => ?_⟩
    · rcases getElem?_insert_cases hsession with ⟨rfl, rfl⟩ | ⟨-, hold⟩
      · exact whole_modify hf ⟨directory, hget, hwhole⟩
      · exact whole_modify hf (hruns.sessions id' session' hold)
    · exact (hruns.live id' (ExtTreeMap.mem_modify.mp hid')).imp_left fun hmem =>
        ExtTreeMap.mem_insert.mpr (.inr hmem)
    · obtain ⟨hissued, hloads, hprogress⟩ := hruns.opening o ho
      exact ⟨hissued, hloads, hruns.progress_modify hlive _ _ rfl hprogress⟩

section Start

variable (sha256 : Bytes → String)

theorem restored_of_whole {directory : SessionDirectory} {principal : String}
    (h : directory.Whole principal) :
    ∃ session, restored sha256 directory = some session ∧ session.owner = principal := by
  rw [restored, h.owner, h.loads]
  exact ⟨_, rfl, rfl⟩

theorem start_eq (h : st.Sound) (hdown : st.daemon = none) :
    st.start sha256 =
      { st with
        daemon := some (LiveStore.mk
          (select (fun _ id => if id ∈ st.directories then some id else none) st.aliasFile)
          (select (fun _ directory => restored sha256 directory) st.directories) none) } := by
  have hmaking : st.daemon.bind LiveStore.making = none := by rw [hdown, Option.bind_none]
  have hall : (st.directories.toList.all fun entry => (restored sha256 entry.2).isSome) = true := by
    rw [List.all_eq_true]
    intro entry hentry
    have hget := ExtTreeMap.mem_toList_iff_getElem?_eq_some.mp hentry
    obtain ⟨principal, hwhole⟩ := h.whole_of_idle hmaking hget
    obtain ⟨session, hsession, -⟩ := restored_of_whole sha256 hwhole
    rw [hsession]
    rfl
  rw [start, if_pos hall]

theorem start_sound (h : st.Sound) (hdown : st.daemon = none) : (st.start sha256).Sound := by
  have hmaking : st.daemon.bind LiveStore.making = none := by rw [hdown, Option.bind_none]
  rw [start_eq sha256 h hdown]
  refine h.setDaemon hmaking h.covers fun d' hd' => ?_
  cases hd'
  refine .of_idle rfl ⟨fun r id hget => ?_, fun id r hid hissued => ?_⟩ (fun id session hget => ?_)
    fun id hid => ?_
  · rw [getElem?_select] at hget
    obtain ⟨id', hfile, hkept⟩ := Option.bind_eq_some_iff.mp hget
    split_ifs at hkept
    obtain rfl := Option.some.inj hkept
    exact h.covers.drawn r id' hfile
  · rw [getElem?_select, h.covers.listed id r hid hissued, Option.bind_some, if_pos hid]
  · rw [getElem?_select] at hget
    obtain ⟨directory, hdirectory, hrestored⟩ := Option.bind_eq_some_iff.mp hget
    obtain ⟨principal, hwhole⟩ := h.whole_of_idle hmaking hdirectory
    obtain ⟨session', hsession', howner⟩ := restored_of_whole sha256 hwhole
    obtain rfl := Option.some.inj (hsession'.symm.trans hrestored)
    exact ⟨directory, hdirectory, howner ▸ hwhole⟩
  · obtain ⟨directory, hdirectory⟩ := getElem?_of_mem hid
    obtain ⟨principal, hwhole⟩ := h.whole_of_idle hmaking hdirectory
    obtain ⟨session, hsession, -⟩ := restored_of_whole sha256 hwhole
    refine mem_of_getElem? (x := session) ?_
    rw [getElem?_select, hdirectory, Option.bind_some, hsession]

end Start

end SessionStore

open SessionStore

theorem storeMachine_sound {sha256 : Bytes → String} {st st' : SessionStore} {action : StoreAction}
    (hguard : CreatesWhole st action) (hact : (storeMachine sha256).act action st = some st')
    (h : st.Sound) : st'.Sound := by
  unfold storeMachine at hact
  dsimp only at hact
  split at hact
  · rename_i requestId principal id d hd
    split_ifs at hact with hready
    obtain ⟨hidle, hvalid, hfresh⟩ := hready
    exact Option.some.inj hact ▸ SessionStore.openSession_sound h hd hidle hvalid hguard hfresh
  · rename_i outcome unixMs d hd
    obtain ⟨o, ho, rfl⟩ := Option.map_eq_some_iff.mp hact
    cases hnext : o.next with
    | aliases => exact aliasesStep_sound h hd ho outcome unixMs hnext
    | directory =>
      refine directoryStep_sound h hd ho outcome unixMs hnext ?_
      rintro rfl
      cases (hguard d hd).2 o ho hnext
    | owner =>
      cases outcome with
      | ok => exact ownerStep_sound h hd ho unixMs hnext
      | failed applied => cases (making_eq_some ho (.inl hnext)).symm.trans (hguard d hd).1
    | created =>
      cases outcome with
      | ok => exact createdStep_sound h hd ho unixMs hnext
      | failed applied => cases (making_eq_some ho (.inr hnext)).symm.trans (hguard d hd).1
    | forget => exact forgetStep_sound h hd ho outcome unixMs hnext
  · rename_i id unixMs kind d hd
    obtain ⟨session, hsession, rfl⟩ := Option.map_eq_some_iff.mp hact
    exact SessionStore.append_sound h hd hsession unixMs kind
  · rename_i d hd
    cases hact
    refine h.setDaemon ?_ h.covers fun d' hd' => ?_
    · rw [hd, Option.bind_some]
      exact hguard d hd
    · cases hd'
  · rename_i hdown
    exact Option.some.inj hact ▸ SessionStore.start_sound sha256 h hdown
  · cases hact

namespace SessionStore

variable {sha256 : Bytes → String} {st : SessionStore} {d : LiveStore} {requestId id : Uuid}
  {principal : AuthPrincipal}

theorem openSession_hit (hruns : st.Runs d) (hidle : d.opening = none)
    (hallows : principal.allows "session:create" = true) (hid : id ∈ st.directories)
    (hissued : st.issued[id]? = some requestId)
    (howner : ∀ directory, st.directories[id]? = some directory →
      directory.owner = some principal.id) (fresh : Uuid) :
    st.openSession d requestId principal fresh =
      { st with answers := st.answers ++ [⟨requestId, principal.id, id⟩] } := by
  obtain ⟨session, hsession⟩ := getElem?_of_mem (hruns.live_of_idle (making_of_idle hidle) hid)
  obtain ⟨directory, hget, hwhole⟩ := hruns.sessions id session hsession
  have hsame : session.owner = principal.id :=
    Option.some.inj (hwhole.owner.symm.trans (howner directory hget))
  simp [openSession, hallows, hruns.covers.listed id requestId hid hissued, hsession, hsame]

theorem openSession_miss (hruns : st.Runs d) (hvacant : Vacant st.issued st.directories requestId)
    (hallows : principal.allows "session:create" = true) (hroom : d.HasRoom principal.id) :
    st.openSession d requestId principal id =
      { st with
        daemon := some { d with
          openRequests := (d.openRequests.erase requestId).insert requestId id
          opening := some ⟨requestId, principal.id, id, .aliases⟩ }
        issued := st.issued.insert id requestId } := by
  have hmiss : ((d.openRequests[requestId]?).bind fun id =>
      (d.sessions[id]?).map fun s => (id, s)) = none := by
    rw [Option.bind_eq_none_iff]
    intro id' halias
    rw [Option.map_eq_none_iff]
    by_contra hlive
    obtain ⟨session, hsession⟩ := Option.ne_none_iff_exists'.mp hlive
    obtain ⟨directory, hget, -⟩ := hruns.sessions id' session hsession
    exact hvacant id' (mem_of_getElem? hget) (hruns.covers.drawn requestId id' halias)
  have hnot : ¬ (d.sessions.size ≥ maxSessions ∨
      (d.sessions.toList.countP fun entry => entry.2.owner = principal.id) ≥
        maxSessionsPerPrincipal) := by
    have := hroom.1
    have := hroom.2
    omega
  simp only [openSession, hallows, hmiss, if_neg hnot, Bool.not_true, Bool.false_eq_true, if_false]

section Retry

variable (sha256 : Bytes → String) (hd : st.daemon = some d) (hruns : st.Runs d)
  (hidle : d.opening = none) (hvalid : validPrincipalId principal.id = true)
  (hallows : principal.allows "session:create" = true) (hfresh : id ∉ st.issued)

include hd hidle hvalid hfresh in
theorem act_openSession : (storeMachine sha256).act (.openSession requestId principal id) st =
    some (st.openSession d requestId principal id) := by
  simp only [storeMachine, hd]
  exact if_pos ⟨hidle, hvalid, hfresh⟩

include hd hruns hidle hvalid hallows hfresh

theorem run_hit {id' : Uuid} (hid' : id' ∈ st.directories)
    (hissued : st.issued[id']? = some requestId)
    (howner : ∀ directory, st.directories[id']? = some directory →
      directory.owner = some principal.id) :
    ∃ st', (storeMachine sha256).runWith (fun _ _ => true)
        [.openSession requestId principal id] st = some st' ∧
      ⟨requestId, principal.id, id'⟩ ∈ st'.answers := by
  simp only [Steps.Machine.runWith, if_true, act_openSession sha256 hd hidle hvalid hfresh,
    Option.bind_some, openSession_hit hruns hidle hallows hid' hissued howner]
  exact ⟨_, rfl, List.mem_append_right _ List.mem_cons_self⟩

theorem run_miss (hvacant : Vacant st.issued st.directories requestId)
    (hroom : d.HasRoom principal.id) (unixMs : ℕ) :
    ∃ st', (storeMachine sha256).runWith (fun _ _ => true)
        (.openSession requestId principal id :: List.replicate 4 (.io .ok unixMs)) st = some st' ∧
      ⟨requestId, principal.id, id⟩ ∈ st'.answers := by
  simp only [Steps.Machine.runWith, if_true, act_openSession sha256 hd hidle hvalid hfresh,
    Option.bind_some, List.replicate_succ, List.replicate_zero,
    openSession_miss hruns hvacant hallows hroom]
  exact ⟨_, rfl, List.mem_append_right _ List.mem_cons_self⟩

end Retry

end SessionStore

/-- However the daemon stops and starts, one request has one session, of one principal, with
its first event; and a retry gets it, or makes it if it is not there yet. -/
theorem open_session_is_idempotent {sha256 : Bytes → String} {st : SessionStore}
    (hreach : (storeMachine sha256).Reaches CreatesWhole .initial st) :
    (∀ answer ∈ st.answers, ∃ directory, st.directories[answer.id]? = some directory ∧
      loadSessionOwner directory.owner = .ok answer.principal ∧
      directory.log.head?.map Event.kind = some .sessionCreated) ∧
    (∀ answer ∈ st.answers, ∀ answer' ∈ st.answers, answer.requestId = answer'.requestId →
      answer.id = answer'.id ∧ answer.principal = answer'.principal) ∧
    (∀ requestId id id' : Uuid, id ∈ st.directories → st.issued[id]? = some requestId →
      id' ∈ st.directories → st.issued[id']? = some requestId → id = id') ∧
    (st.daemon = none → ∃ st' d, (storeMachine sha256).act .start st = some st' ∧
      st'.daemon = some d ∧ d.opening = none) ∧
    ∀ d, st.daemon = some d → d.opening = none →
      ∀ (requestId : Uuid) (principal : AuthPrincipal) (id unixMs : ℕ),
      validPrincipalId principal.id = true → trim principal.id = principal.id →
      principal.allows "session:create" = true → id ∉ st.issued →
      (∀ (id' : Uuid) directory, st.directories[id']? = some directory →
        st.issued[id']? = some requestId → directory.owner = some principal.id) →
      (Vacant st.issued st.directories requestId → d.HasRoom principal.id) →
      ∃ n ≤ 4, ∃ st' id', (storeMachine sha256).runWith (fun _ _ => true)
          (.openSession requestId principal id :: List.replicate n (.io .ok unixMs)) st = some st' ∧
        (storeMachine sha256).Reaches CreatesWhole .initial st' ∧
        ⟨requestId, principal.id, id'⟩ ∈ st'.answers := by
  have h : st.Sound := hreach.invariant initial_sound fun _ _ _ => storeMachine_sound
  refine ⟨fun answer hanswer => ?_, fun answer hanswer answer' hanswer' hsame => ?_,
    fun requestId id id' hid hissued hid' => h.covers.unique hid hissued hid', fun hdown => ?_, ?_⟩
  · obtain ⟨-, directory, hget, hwhole⟩ := h.answers answer hanswer
    exact ⟨directory, hget, hwhole.owner ▸ hwhole.loads, hwhole.created⟩
  · obtain ⟨hissued, directory, hget, hwhole⟩ := h.answers answer hanswer
    obtain ⟨hissued', directory', hget', hwhole'⟩ := h.answers answer' hanswer'
    have hid : answer.id = answer'.id :=
      h.covers.unique (mem_of_getElem? hget) hissued (mem_of_getElem? hget') (hsame ▸ hissued')
    rw [hid] at hget
    obtain rfl := Option.some.inj (hget.symm.trans hget')
    exact ⟨hid, Option.some.inj (hwhole.owner.symm.trans hwhole'.owner)⟩
  · refine ⟨st.start sha256, _, ?_, by rw [start_eq sha256 h hdown], rfl⟩
    simp only [storeMachine, hdown]
  · intro d hd hidle requestId principal id unixMs hvalid htrim hallows hfresh howner hroom
    have hruns := h.daemon d hd
    have hguard : ∀ n, ∀ action ∈ StoreAction.openSession requestId principal id ::
        List.replicate n (.io .ok unixMs), ∀ st, CreatesWhole st action := by
      intro n action haction st
      rcases List.mem_cons.mp haction with rfl | hio
      · exact htrim
      · obtain rfl := List.eq_of_mem_replicate hio
        trivial
    by_cases hvacant : Vacant st.issued st.directories requestId
    · obtain ⟨st', hrun, hanswer⟩ := run_miss sha256 hd hruns hidle hvalid hallows hfresh hvacant
        (hroom hvacant) unixMs
      exact ⟨4, le_rfl, st', id, hrun, Steps.Machine.reaches_of_run _ (hguard 4) hreach hrun, hanswer⟩
    · obtain ⟨id', hfound⟩ := not_forall.mp hvacant
      obtain ⟨hid', hissued⟩ := Classical.not_imp.mp hfound
      obtain ⟨st', hrun, hanswer⟩ := run_hit sha256 hd hruns hidle hvalid hallows hfresh hid'
        (not_not.mp hissued) fun directory hget => howner id' directory hget (not_not.mp hissued)
      exact ⟨0, Nat.zero_le _, st', id', hrun,
        Steps.Machine.reaches_of_run _ (hguard 0) hreach hrun, hanswer⟩

section Runs

def openMachine : Steps.Machine StoreAction SessionStore := storeMachine fun _ => ""

def alice : AuthPrincipal := ⟨"alice", ["*"]⟩

def createsWhole (st : SessionStore) : StoreAction → Bool
  | .openSession _ principal _ => trim principal.id = principal.id
  | .io outcome _ => outcome = .ok
  | .crash => st.daemon.bind LiveStore.making = none
  | _ => true

theorem createsWhole_guard (st : SessionStore) (action : StoreAction)
    (h : createsWhole st action = true) : CreatesWhole st action := by
  cases action with
  | openSession requestId principal id =>
    have htrim : trim principal.id = principal.id := of_decide_eq_true h
    exact htrim
  | io outcome unixMs =>
    obtain rfl : outcome = .ok := of_decide_eq_true h
    trivial
  | crash =>
    intro d hd
    have hmaking : st.daemon.bind LiveStore.making = none := of_decide_eq_true h
    rwa [hd] at hmaking
  | append | start => trivial

/-- A request that is sent again after a crash behind the alias table, and once more after
its answer was lost. -/
theorem open_session_survives_crashes : ∃ st,
    openMachine.Reaches CreatesWhole .initial st ∧
    st.answers = [⟨7, "alice", 101⟩, ⟨7, "alice", 101⟩] ∧
    ∃ directory, st.directories[101]? = some directory ∧
      loadSessionOwner directory.owner = .ok "alice" ∧
      directory.log.head?.map Event.kind = some .sessionCreated := by
  have hrun : ((openMachine.runWith createsWhole
      [.start, .openSession 7 alice 100, .io .ok 0, .crash,
        .start, .openSession 7 alice 101, .io .ok 0, .io .ok 0, .io .ok 0, .io .ok 0, .crash,
        .start, .openSession 7 alice 102] .initial).any
      fun st => st.answers = [⟨7, "alice", 101⟩, ⟨7, "alice", 101⟩]) = true := by
    decide
  obtain ⟨st, hreach, hanswers⟩ := openMachine.exists_reaches createsWhole_guard hrun
  have hanswers := of_decide_eq_true hanswers
  exact ⟨st, hreach, hanswers,
    (open_session_is_idempotent hreach).1 ⟨7, "alice", 101⟩ (hanswers ▸ List.mem_cons_self)⟩

/-- A crash before the owner file: the retry is refused, and another principal gets the session. A
crash before the first event: the retry gets a session without it. A name with a blank around it:
the retry after a restart is refused. -/
theorem open_session_is_lost :
    (∃ st, openMachine.Reaches (fun _ _ => True) .initial st ∧
      st.answers = [⟨7, "legacy", 100⟩] ∧ st.issued[100]? = some 7 ∧
      openMachine.act (.openSession 7 alice 101) st = some st) ∧
    (∃ st, openMachine.Reaches (fun _ _ => True) .initial st ∧
      st.answers = [⟨7, "alice", 100⟩] ∧ st.directories[100]? = some ⟨some "alice", []⟩) ∧
    ∃ st, openMachine.Reaches (fun _ _ => True) .initial st ∧
      st.answers = [⟨7, " bob", 100⟩] ∧
      openMachine.act (.openSession 7 ⟨" bob", ["*"]⟩ 101) st = some st := by
  have howner : ((openMachine.runWith (fun _ _ => true)
      [.start, .openSession 7 alice 100, .io .ok 0, .io .ok 0, .crash,
        .start, .openSession 7 ⟨"legacy", ["*"]⟩ 101] .initial).any fun st =>
      st.answers = [⟨7, "legacy", 100⟩] ∧ st.issued[100]? = some 7 ∧
        openMachine.act (.openSession 7 alice 101) st = some st) = true := by
    decide
  have hcreated : ((openMachine.runWith (fun _ _ => true)
      [.start, .openSession 7 alice 100, .io .ok 0, .io .ok 0, .io .ok 0, .crash,
        .start, .openSession 7 alice 101] .initial).any fun st =>
      st.answers = [⟨7, "alice", 100⟩] ∧ st.directories[100]? = some ⟨some "alice", []⟩) = true := by
    decide
  have hblank : ((openMachine.runWith (fun _ _ => true)
      [.start, .openSession 7 ⟨" bob", ["*"]⟩ 100, .io .ok 0, .io .ok 0, .io .ok 0, .io .ok 0,
        .crash, .start] .initial).any fun st =>
      st.answers = [⟨7, " bob", 100⟩] ∧
        openMachine.act (.openSession 7 ⟨" bob", ["*"]⟩ 101) st = some st) = true := by
    decide
  have hany : ∀ (st : SessionStore) (action : StoreAction), true = true → True :=
    fun _ _ _ => trivial
  obtain ⟨st₁, hreach₁, h₁⟩ := openMachine.exists_reaches hany howner
  obtain ⟨st₂, hreach₂, h₂⟩ := openMachine.exists_reaches hany hcreated
  obtain ⟨st₃, hreach₃, h₃⟩ := openMachine.exists_reaches hany hblank
  exact ⟨⟨st₁, hreach₁, of_decide_eq_true h₁⟩, ⟨st₂, hreach₂, of_decide_eq_true h₂⟩,
    ⟨st₃, hreach₃, of_decide_eq_true h₃⟩⟩

end Runs

end Asp
