import BatteryMonitor.Proofs.Hysteresis
import BatteryMonitor.Proofs.Monitor.Events
import BatteryMonitor.Proofs.Report

/-!
# Whose readings a verdict is made of

The latch of the health is kept for an index of the list, and an index keeps it for as long as the
list reaches that far.  So a verdict is made of the readings that stood at its index
(`Reading.held`), whatever batteries they were of, and not of the readings of its battery
(`Reading.carried`).

* `Monitor.Latching` : the invariant.  The latch of every index is what the readings that it held
  have left.  A run over readings that were classified before finds the latch where it left it
  (`Reading.classify_latched`), so that only new lists count.
* `Monitor.health_eq_verdict` : **the health of every snapshot that is built is the verdict on the
  readings that its index held**.  For a battery that has stood at one index since it came into the
  list, and found no latch set there, these might as well be its own (`Reading.Rooted`).
* `Monitor.health_inherited` : a battery that moves up takes over the latch of the one whose place
  it takes.
-/

namespace BatteryMonitor

open Effect

/-! ### Readings of an index and of a battery -/

namespace Reading

variable {i : Nat} {key : Text} {rs later earlier : List Reading} {health : Health}
  {lists tenure before : List (List Reading)}

/-- The readings that stood at an index since the lists last came to reach that far.  The last list
comes first, and so does the last reading. -/
def held (i : Nat) : List (List Reading) → List Reading
  | [] => []
  | rs :: earlier =>
    match rs[i]? with
    | some r => r :: held i earlier
    | none => []

/-- The readings that carried a key since it last came into the lists. -/
def carried (key : Text) : List (List Reading) → List Reading
  | [] => []
  | rs :: earlier =>
    match rs.find? (·.storeKey.isText key) with
    | some r => r :: carried key earlier
    | none => []

/-- The battery `key` has stood at the index `i` since it last came into the lists, and when it came
the latch of the index was not set. -/
def Rooted (key : Text) (i : Nat) (lists : List (List Reading)) : Prop :=
  ∃ tenure before, lists = tenure ++ before ∧
    (∀ rs ∈ tenure, ∃ r, rs[i]? = some r ∧ r.storeKey.isText key) ∧
    (∀ rs ∈ before.head?, ∀ r ∈ rs, ¬ r.storeKey.isText key) ∧
    ∃ health, verdict (held i before) = .ok (health, false)

/-- Readings before which the latch was not set might as well be the first. -/
theorem verdict_append (hearlier : verdict earlier = .ok (health, false)) (hlater : later ≠ []) :
    verdict (later ++ earlier) = verdict later := by
  induction later with
  | nil => exact absurd rfl hlater
  | cons r later ih =>
    cases later with
    | nil => rw [List.singleton_append, verdict, hearlier]; rfl
    | cons q later =>
      rw [List.cons_append, verdict, ih (List.cons_ne_nil _ _)]
      rfl

theorem held_append (htenure : ∀ rs ∈ tenure, ∃ r, rs[i]? = some r) :
    held i (tenure ++ before) = tenure.filterMap (·[i]?) ++ held i before := by
  induction tenure with
  | nil => rfl
  | cons rs tenure ih =>
    obtain ⟨r, hr⟩ := htenure rs List.mem_cons_self
    rw [List.cons_append, held, hr, List.filterMap_cons, hr, List.cons_append]
    exact congrArg _ (ih fun rs hrs => htenure rs (List.mem_cons_of_mem _ hrs))

theorem find?_storeKey {r : Reading} (hdistinct : DistinctKeys rs) (hkey : key ≠ "")
    (hr : rs[i]? = some r) (hnamed : r.storeKey.isText key) :
    rs.find? (·.storeKey.isText key) = some r := by
  have htext {q : Reading} (h : q.storeKey.isText key) (j : Nat) :
      q.effectiveKey j = .text key := by
    cases hq : q.storeKey with
    | text name =>
      rw [hq] at h
      obtain rfl : name = key := by simpa [Value.isText] using h
      rw [effectiveKey, hq, if_pos (by simpa [Value.truth] using hkey)]
    | null | bool | int | float | list | object => rw [hq] at h; exact absurd h Bool.false_ne_true
  obtain ⟨q, hq⟩ : ∃ q, rs.find? (·.storeKey.isText key) = some q := by
    rw [← Option.isSome_iff_exists, List.find?_isSome]
    exact ⟨r, List.mem_of_getElem? hr, hnamed⟩
  obtain ⟨j, hj⟩ := List.mem_iff_getElem?.1 (List.mem_of_find?_eq_some hq)
  have hqnamed : q.storeKey.isText key := by simpa using List.find?_some hq
  have hij : i = j := hdistinct.eq_of_entryOf? hr hj (by rw [htext hnamed, htext hqnamed])
    (by rw [htext hnamed]; rfl)
  rw [hq, ← hj, ← hij, hr]

theorem carried_append (hkey : key ≠ "") (hdistinct : ∀ rs ∈ tenure, DistinctKeys rs)
    (htenure : ∀ rs ∈ tenure, ∃ r, rs[i]? = some r ∧ r.storeKey.isText key)
    (hbefore : ∀ rs ∈ before.head?, ∀ r ∈ rs, ¬ r.storeKey.isText key) :
    carried key (tenure ++ before) = tenure.filterMap (·[i]?) := by
  induction tenure with
  | nil =>
    cases before with
    | nil => rfl
    | cons rs before =>
      rw [List.nil_append, carried, List.find?_eq_none.2 (hbefore rs rfl)]
      rfl
  | cons rs tenure ih =>
    obtain ⟨r, hr, hnamed⟩ := htenure rs List.mem_cons_self
    rw [List.cons_append, carried, find?_storeKey (hdistinct rs List.mem_cons_self) hkey hr hnamed,
      List.filterMap_cons, hr]
    exact congrArg _ (ih (fun rs hrs => hdistinct rs (List.mem_cons_of_mem _ hrs))
      fun rs hrs => htenure rs (List.mem_cons_of_mem _ hrs))

/-- The readings that a rooted battery carried and the ones that its index held are classified in
the same way. -/
theorem Rooted.verdict_eq (h : Rooted key i lists) (hkey : key ≠ "")
    (hdistinct : ∀ rs ∈ lists, DistinctKeys rs)
    (hlast : ∃ rs ∈ lists.head?, ∃ r ∈ rs, r.storeKey.isText key) :
    verdict (held i lists) = verdict (carried key lists) := by
  obtain ⟨tenure, before, rfl, htenure, hbefore, health, hlatch⟩ := h
  rw [held_append fun rs hrs => (htenure rs hrs).imp fun r hr => hr.1,
    carried_append hkey (fun rs hrs => hdistinct rs (List.mem_append_left _ hrs)) htenure hbefore]
  refine verdict_append hlatch fun hnil => ?_
  -- a battery that is in the last list has been there for one list at least
  cases tenure with
  | nil =>
    obtain ⟨rs, hrs, r, hr, hnamed⟩ := hlast
    exact hbefore rs hrs r hr hnamed
  | cons rs tenure =>
    obtain ⟨r, hr, -⟩ := htenure rs List.mem_cons_self
    rw [List.filterMap_cons, hr] at hnil
    cases hnil

theorem held_eq_nil (h : (lists.head?.getD []).length ≤ i) : held i lists = [] := by
  cases lists with
  | nil => rfl
  | cons rs earlier =>
    have hnone : rs[i]? = none := List.getElem?_eq_none h
    rw [held, hnone]

end Reading

/-! ### The latches of a monitor -/

namespace Monitor

open Reading

variable {τ : Type} [Scheduler τ] {m m' t : Monitor τ} {i : Nat} {r : Reading}
  {lists : List (List Reading)} {snapshots : List Snapshot}

/-- **The latch of every index** is what the readings that it held have left. -/
structure Latching (lists : List (List Reading)) (m : Monitor τ) : Prop where
  fitted : m.Fitted
  distinct : m.store.values.Distinct
  readings : m.readings = lists.head?.getD []
  latched : ∀ i s, m.state? i = some s →
    ∃ health, verdict (held i lists) = .ok (health, s.latched)

omit [Scheduler τ] in
theorem Fresh.latching (h : m.Fresh) : Latching [] m where
  fitted := h.fitted
  distinct := h.distinct
  readings := h.readings
  latched i s hs := by rw [h.state?] at hs; cases hs

theorem classified_runBuilding (hd : m.store.values.Distinct) (hr : m.readings[i]? = some r)
    (h : Completes runBuilding m snapshots m') : ∃ s s' snapshot health,
      m.state? i = some s ∧ m'.state? i = some s' ∧ snapshots[i]? = some snapshot ∧
      r.classify s.latched = .ok (health, s'.latched) ∧
      snapshot.health = health.rating ∧ snapshot.healthConfidence = health.confidence := by
  obtain ⟨s, s', snapshot, minutes, hs, hs', hsnapshot, -, hreport, -⟩ :=
    reported_runBuilding hd hr h
  obtain ⟨capacity, health, -, hclassify, rfl⟩ := report_eq_ok hreport
  exact ⟨s, s', _, health, hs, hs', hsnapshot, hclassify, rfl, rfl⟩

omit [Scheduler τ] in
theorem Latching.latched_getD (hlatching : Latching lists m) (i : Nat) : ∃ health,
    verdict (held i lists) = .ok (health, ((m.state? i).getD {}).latched) := by
  cases hs : m.state? i with
  | some s => exact hlatching.latched i s hs
  | none =>
    have hlen : m.readings.length ≤ i := by
      refine Nat.le_of_not_lt fun hlt => ?_
      have hsome := (hlatching.fitted i).2 hlt
      rw [hs] at hsome
      exact Bool.false_ne_true hsome
    rw [hlatching.readings] at hlen
    rw [held_eq_nil hlen]
    exact ⟨.unknown, rfl⟩

theorem verdict_held {brought : Option (List Reading)} {health₀ health : Health}
    {latched₀ latched : Bool} (hr : (brought.getD (lists.head?.getD []))[i]? = some r)
    (hbefore : verdict (held i lists) = .ok (health₀, latched₀))
    (h : r.classify latched₀ = .ok (health, latched)) :
    verdict (held i (brought.toList ++ lists)) = .ok (health, latched) := by
  cases brought with
  | some rs =>
    have hr : rs[i]? = some r := hr
    rw [Option.toList_some, List.singleton_append, held, hr]
    dsimp only
    rw [verdict, hbefore]
    exact h
  | none =>
    rw [Option.toList_none, List.nil_append]
    cases lists with
    | nil => cases hr
    | cons rs earlier =>
      have hr : rs[i]? = some r := hr
      rw [held, hr] at hbefore ⊢
      obtain ⟨health₁, latched₁, -, hlast⟩ := verdict_cons hbefore
      rw [hbefore, ← h, classify_latched hlast]

/-- **Events keep the latches with the readings**, and the snapshots that they build tell the
verdicts. -/
theorem latching_observe {e : Event τ} {o : Option (List Snapshot)}
    (hlatching : Latching lists m) (h : Completes e.observe m o m') :
    Latching (e.brought.toList ++ lists) m' ∧
    ∀ snapshots ∈ o, ∀ i r, m'.readings[i]? = some r → ∃ snapshot health latched,
      snapshots[i]? = some snapshot ∧
      verdict (held i (e.brought.toList ++ lists)) = .ok (health, latched) ∧
      snapshot.health = health.rating ∧ snapshot.healthConfidence = health.confidence := by
  obtain ⟨hturned, hreadings⟩ := turned_observe hlatching.fitted hlatching.distinct h
  have hhead : m'.readings = (e.brought.toList ++ lists).head?.getD [] := by
    rw [hreadings, hlatching.readings]
    cases e.brought <;> rfl
  rw [hlatching.readings] at hreadings
  have hfitted := hturned.fitted
  have hdistinct := hturned.distinct
  cases hturned with
  | rested hsynced why =>
    refine ⟨⟨hfitted, hdistinct, hhead, fun i s hs => ?_⟩, nofun⟩
    cases hbrought : e.brought with
    | some rs =>
      -- there are no states for a list that is empty
      have hi := (hfitted i).1 (Option.isSome_of_eq_some hs)
      rw [hreadings, hbrought, eq_nil_of_brought hlatching.distinct h rs hbrought] at hi
      exact absurd hi (Nat.not_lt_zero i)
    | none =>
      -- nothing has happened to the index
      have hstate := hsynced.state? i
      rw [if_pos (by simpa using (hfitted i).1 (Option.isSome_of_eq_some hs)), hs] at hstate
      rw [Option.toList_none, List.nil_append, Option.some.inj hstate]
      exact hlatching.latched_getD i
  | @ran t _ snapshots hsynced hrun =>
    have hreadings' : m'.readings = t.readings := (passed_runBuilding hsynced.store.distinct hrun).1
    -- every index goes from the latch that it has before the run to the one that the run leaves
    have hone (i : Nat) (r : Reading) (hr : m'.readings[i]? = some r) :
        ∃ s' snapshot health, m'.state? i = some s' ∧ snapshots[i]? = some snapshot ∧
          verdict (held i (e.brought.toList ++ lists)) = .ok (health, s'.latched) ∧
          snapshot.health = health.rating ∧ snapshot.healthConfidence = health.confidence := by
      obtain ⟨s, s', snapshot, health, hs, hs', hsnapshot, hclassify, hhealth⟩ :=
        classified_runBuilding hsynced.store.distinct (hreadings' ▸ hr) hrun
      have hi : i < t.readings.length :=
        (hsynced.fitted i).1 (Option.isSome_of_eq_some hs)
      have hstate := hsynced.state? i
      rw [if_pos (by simpa using hi), hs] at hstate
      obtain ⟨health₀, hbefore⟩ := hlatching.latched_getD i
      rw [Option.some.inj hstate] at hclassify
      exact ⟨s', snapshot, health, hs', hsnapshot,
        verdict_held (hreadings ▸ hr) hbefore hclassify, hhealth⟩
    refine ⟨⟨hfitted, hdistinct, hhead, fun i s hs => ?_⟩, ?_⟩
    · have hi := (hfitted i).1 (Option.isSome_of_eq_some hs)
      obtain ⟨s', snapshot, health, hs', -, hverdict, -⟩ := hone i _ (List.getElem?_eq_getElem hi)
      cases hs.symm.trans hs'
      exact ⟨health, hverdict⟩
    · rintro _ ⟨⟩ i r hr
      obtain ⟨s', snapshot, health, -, hsnapshot, hverdict, hhealth⟩ := hone i r hr
      exact ⟨snapshot, health, s'.latched, hsnapshot, hverdict, hhealth⟩

theorem latching_afterAll {start : Monitor τ} (hfresh : start.Fresh) :
    ∀ {past : List (Event τ)}, faultless Event.act start past →
      Latching (listsOf past) (afterAll Event.act start past)
  | [], _ => hfresh.latching
  | e :: past, hfaultless => by
    obtain ⟨hpast, u, h⟩ := faultless_cons.1 hfaultless
    obtain ⟨o, h⟩ := Event.completes_act.1 h
    rw [listsOf_cons]
    exact (latching_observe (latching_afterAll hfresh hpast) h).1

/-- **The health of every snapshot that is built is the verdict on the readings that its index
held**, from a latch that is not set: for a monitor that begins without batteries, after any
history without faults, for every event that builds snapshots.  For a battery that has stood at one
index since it came into the list, and found no latch set there, it is the verdict on the readings
that carried its key since then.  The snapshots are those that the event itself builds and publishes
(`Event.act_eq`). -/
theorem health_eq_verdict {start : Monitor τ} {past : List (Event τ)} {e : Event τ}
    (hfresh : start.Fresh) (hfaultless : faultless Event.act start past)
    (h : Completes e.observe (afterAll Event.act start past) (some snapshots) m')
    (hr : m'.readings[i]? = some r) :
    ∃ snapshot health latched, snapshots[i]? = some snapshot ∧
      snapshot.health = health.rating ∧ snapshot.healthConfidence = health.confidence ∧
      verdict (held i (listsOf (e :: past))) = .ok (health, latched) ∧
      ∀ key, r.storeKey = .text key → key ≠ "" →
        (∀ rs ∈ listsOf (e :: past), DistinctKeys rs) → Rooted key i (listsOf (e :: past)) →
        verdict (carried key (listsOf (e :: past))) = .ok (health, latched) := by
  obtain ⟨hlatching, hbuilt⟩ := latching_observe (latching_afterAll hfresh hfaultless) h
  rw [← listsOf_cons] at hlatching hbuilt
  obtain ⟨snapshot, health, latched, hsnapshot, hverdict, hhealth, hconfidence⟩ :=
    hbuilt snapshots rfl i r hr
  refine ⟨snapshot, health, latched, hsnapshot, hhealth, hconfidence, hverdict,
    fun key hkey hnonempty hdistinct hrooted => ?_⟩
  rw [← hrooted.verdict_eq hnonempty hdistinct ?_, hverdict]
  -- the battery is in the last list
  rw [hlatching.readings] at hr
  cases hlists : listsOf (e :: past) with
  | nil => rw [hlists] at hr; cases hr
  | cons rs earlier =>
    rw [hlists] at hr
    exact ⟨rs, rfl, r, List.mem_of_getElem? hr, by simp [hkey, Value.isText]⟩

/-- A young battery with a key, a full capacity in mAh, and 10000 mAh that it was designed for. -/
def aged (key : Text) (capacity : Int) : Reading :=
  { storeKey := .text key, designCapacity := .int 10000, maxCapacity := .int capacity }

/-- A worn battery is alone in the list. -/
def wornAlone : List (Event Bench) := [.request (.batteriesChanged [aged "A" 7700])]

/-- When another one joins it, it is still fair, as its own readings say. -/
theorem health_eq_verdict_joined :
    let e : Event Bench := .request (.batteriesChanged [aged "A" 8000, aged "B" 8000])
    ∃ (snapshots : List Snapshot) (m' : Monitor Bench) (snapshot : Snapshot),
      Completes e.observe (afterAll Event.act onBench wornAlone) (some snapshots) m' ∧
      m'.readings[0]? = some (aged "A" 8000) ∧ Rooted "A" 0 (listsOf (e :: wornAlone)) ∧
      snapshots[0]? = some snapshot ∧ snapshot.health = some .fair ∧
      verdict (carried "A" (listsOf (e :: wornAlone))) = .ok (.certain .fair, true) := by
  intro e
  have hfaultless : faultless Event.act onBench wornAlone := by decide +kernel
  obtain ⟨snapshots, h⟩ := completes_of_yields e.observe (afterAll Event.act onBench wornAlone)
    (by decide +kernel)
  have hlatching := latching_afterAll fresh_onBench hfaultless
  have hr : (after e.observe (afterAll Event.act onBench wornAlone)).readings[0]? =
      some (aged "A" 8000) := by
    rw [(turned_observe hlatching.fitted hlatching.distinct h).2]
    rfl
  have hrooted : Rooted "A" 0 (listsOf (e :: wornAlone)) :=
    ⟨[[aged "A" 8000, aged "B" 8000], [aged "A" 7700]], [], rfl,
      by simp [aged, Value.isText], nofun, .unknown, rfl⟩
  obtain ⟨snapshot, health, latched, hsnapshot, hhealth, -, -, hown⟩ :=
    health_eq_verdict fresh_onBench hfaultless h hr
  have hcarried : verdict (carried "A" (listsOf (e :: wornAlone))) = .ok (.certain .fair, true) :=
    eq_ok_of_toOption (by decide +kernel)
  have hverdict := hown "A" rfl (by decide) (by decide +kernel) hrooted
  cases hcarried.symm.trans hverdict
  exact ⟨snapshots, _, snapshot, h, hr, hrooted, hsnapshot, hhealth, hcarried⟩

/-- A worn battery is in the list before another one. -/
def wornFirst : List (Event Bench) :=
  [.request (.batteriesChanged [aged "A" 7700, aged "B" 8000])]

/-- **A verdict that is not the battery's own**: when the first one is taken out, the other moves up
and takes over its latch, and is fair though its own readings are good. -/
theorem health_inherited :
    let e : Event Bench := .request (.batteriesChanged [aged "B" 8000])
    (∀ rs ∈ listsOf (e :: wornFirst), DistinctKeys rs ∧ ∀ r ∈ rs, r.isWellTyped ∧
      ∃ key, r.storeKey = .text key ∧ key ≠ "") ∧
    faultless Event.act onBench (e :: wornFirst) ∧
    ∃ (snapshots : List Snapshot) (m' : Monitor Bench) (snapshot : Snapshot),
      Completes e.observe (afterAll Event.act onBench wornFirst) (some snapshots) m' ∧
      m'.readings[0]? = some (aged "B" 8000) ∧ snapshots[0]? = some snapshot ∧
      snapshot.health = some .fair ∧
      verdict (carried "B" (listsOf (e :: wornFirst))) = .ok (.certain .good, false) := by
  intro e
  have hnamed {key : Text} {capacity : Int} (hkey : key ≠ "") :
      ∃ name, (aged key capacity).storeKey = .text name ∧ name ≠ "" := ⟨key, rfl, hkey⟩
  have hlists : ∀ rs ∈ listsOf (e :: wornFirst), DistinctKeys rs ∧ ∀ r ∈ rs, r.isWellTyped ∧
      ∃ key, r.storeKey = .text key ∧ key ≠ "" := by
    rintro rs (_ | ⟨_, _ | ⟨_, ⟨⟩⟩⟩) <;> refine ⟨by decide +kernel, ?_⟩ <;>
      rintro r (_ | ⟨_, _ | ⟨_, ⟨⟩⟩⟩) <;> exact ⟨rfl, hnamed (by decide)⟩
  have hfaultless : faultless Event.act onBench wornFirst := by decide +kernel
  obtain ⟨snapshots, h⟩ := completes_of_yields e.observe (afterAll Event.act onBench wornFirst)
    (by decide +kernel)
  have hlatching := latching_afterAll fresh_onBench hfaultless
  have hr : (after e.observe (afterAll Event.act onBench wornFirst)).readings[0]? =
      some (aged "B" 8000) := by
    rw [(turned_observe hlatching.fitted hlatching.distinct h).2]
    rfl
  -- the readings at its index are those of two batteries
  obtain ⟨snapshot, health, latched, hsnapshot, hverdict, hhealth, -⟩ :=
    (latching_observe hlatching h).2 snapshots rfl 0 _ hr
  have hheld : verdict (held 0 (e.brought.toList ++ listsOf wornFirst)) =
      .ok (.certain .fair, true) := eq_ok_of_toOption (by decide +kernel)
  cases hheld.symm.trans hverdict
  exact ⟨hlists, by decide +kernel, snapshots, _, snapshot, h, hr, hsnapshot, hhealth,
    eq_ok_of_toOption (by decide +kernel)⟩

end Monitor

end BatteryMonitor
