import BatteryMonitor.Proofs.Monitor.Window
import BatteryMonitor.Proofs.Outlook
import BatteryMonitor.Proofs.Reading

/-!
# A repeated cycle changes nothing

A run of the pipeline brings a monitor to rest: the same run once more would change nothing, and
neither would the same list once more, as long as estimates are suppressed or not as they were in
the run.  The keys of the list need not be distinct.

* `Monitor.AtRest` : what is kept for every battery is what a run would write again.
* `Monitor.completes_refresh_self`, `Monitor.completes_batteriesChanged_self` : at rest a refresh
  and an equal list change nothing.
* `Monitor.atRest_runBuilding` : **every run that completes leaves the monitor at rest**.  The
  latch of the health is the one place where a run looks at what it wrote itself, and a second
  look finds it where it is (`Reading.report_latched`).
* `Monitor.Following` : the invariant.  What the watch has seen last is the list of the monitor, so
  that an equal list is neither a change of the power source nor an insertion.
* `Monitor.unchanged_of_observe` : so it is after every history without faults, also when the
  hardware support has changed since.
-/

namespace BatteryMonitor

namespace Monitor

open Effect

variable {τ : Type} {m m' : Monitor τ} {i : Nat} {r : Reading} {s : BatteryState}

/-! ### Stages that change nothing -/

theorem completes_moveKey_self {key : Value} (hkey : m.keys.lookup i = some key)
    (hequal : key.equal key = true) : Completes (moveKey i key) m () m := by
  simp only [moveKey, completes_get_bind, hkey, hequal, Bool.not_true, Bool.and_false]
  exact completes_pure.2 ⟨rfl, rfl⟩

theorem completes_place_self {key : Value} {snapshot last : Snapshot} (hs : m.state? i = some s)
    (hkey : m.keys.lookup i = some key) (hequal : key.equal key = true)
    (hlast : s.lastPublished = some last) (hsame : last.same snapshot = true) :
    Completes (place i key snapshot) m () m := by
  have hpublish : Completes (Store.publish key s snapshot) m.store false m.store := by
    simp only [Store.publish, hlast, hsame, if_true]
    exact completes_pure.2 ⟨rfl, rfl⟩
  refine completes_bind.2 ⟨(), m, completes_moveKey_self hkey hequal, ?_⟩
  rw [completes_modify_bind, completes_get_bind, setAt_self hkey]
  simp only [hs]
  exact completes_bind.2 ⟨false, m, completes_onStore.2 ⟨m.store, hpublish, rfl⟩,
    completes_pure.2 ⟨rfl, rfl⟩⟩

variable [Scheduler τ]

/-! ### Monitors at rest -/

/-- What is kept for a battery is what a run would write again. -/
structure Resting (m : Monitor τ) (i : Nat) (r : Reading) (s : BatteryState) : Prop where
  state? : m.state? i = some s
  key : m.keys.lookup i = some (r.effectiveKey i)
  equal : (r.effectiveKey i).equal (r.effectiveKey i) = true
  estimate : ∃ minutes, r.estimate m.watch.conditions m.watch.now = .ok minutes ∧
    s.timeRemaining = .int minutes
  report : ∃ snapshot last,
    r.report s m.watch.conditions m.watch.now = .ok (snapshot, s.latched) ∧
      s.lastPublished = some last ∧ last.same snapshot = true

/-- A run would change nothing. -/
def AtRest (m : Monitor τ) : Prop :=
  ∀ (i : Nat) (r : Reading), m.readings[i]? = some r → ∃ s, m.Resting i r s

theorem AtRest.congr (h : m.AtRest) (hstates : m'.states = m.states) (hkeys : m'.keys = m.keys)
    (hfirmware : m.watch.conditions.useFirmware = m'.watch.conditions.useFirmware)
    (hignoring : m.watch.isIgnoring = m'.watch.isIgnoring)
    (hreadings : ∀ (i : Nat) (r' : Reading), m'.readings[i]? = some r' →
      ∃ r, m.readings[i]? = some r ∧ r.Alike r') : m'.AtRest := by
  intro i r' hr'
  obtain ⟨r, hr, halike⟩ := hreadings i r' hr'
  obtain ⟨s, hs⟩ := h i r hr
  obtain ⟨minutes, hminutes, htime⟩ := hs.estimate
  obtain ⟨snapshot, last, hreport, hlast, hsame⟩ := hs.report
  have hkey := halike.effectiveKey_eq i
  refine ⟨s, ?_, ?_, hkey ▸ hs.equal, ⟨minutes, ?_, htime⟩, snapshot, last, ?_, hlast, hsame⟩
  · rw [Monitor.state?, hstates]
    exact hs.state?
  · rw [hkeys, ← hkey]
    exact hs.key
  · rw [← halike.estimate_eq, ← Reading.estimate_congr r hfirmware hignoring]
    exact hminutes
  · rw [← halike.report_eq, ← Reading.report_congr r rfl rfl hfirmware hignoring]
    exact hreport

/-! ### Runs that change nothing -/

theorem completes_estimateAll_self (h : m.AtRest) : Completes estimateAll m () m := by
  have hstate (i : Nat) (hi : i ∈ List.range m.readings.length) : (m.state? i).isSome := by
    obtain ⟨s, hs⟩ := h i _ (List.getElem?_eq_getElem (List.mem_range.1 hi))
    exact Option.isSome_of_eq_some hs.state?
  obtain ⟨states, hstates⟩ := exists_currentStates hstate
  obtain ⟨hlen, hget⟩ := getElem?_currentStates hstates
  have hpopulate : populate m.watch.conditions m.watch.now m.readings states = (none, states) := by
    refine populate_self hlen fun i r s hr hs => ?_
    obtain ⟨hi, -⟩ := List.getElem?_eq_some_iff.1 hr
    obtain ⟨s', hs'⟩ := h i r hr
    rw [hget i hi, hs'.state?] at hs
    cases hs
    exact hs'.estimate
  have hwritten : ∀ (k : Nat) (s : BatteryState), states[k]? = some s →
      m.states.lookup (0 + k) = some s := by
    intro k s hs
    obtain ⟨hk, -⟩ := List.getElem?_eq_some_iff.1 hs
    rw [Nat.zero_add, ← hs]
    exact (hget k (hlen ▸ hk)).symm
  simp only [estimateAll, completes_get_bind, hstates, hpopulate, setStates,
    completes_modify_bind, foldl_setAt_self hwritten]
  exact completes_pure.2 ⟨rfl, rfl⟩

theorem completes_pass_self : ∀ {rs : List Reading} {p : Nat},
    (∀ (k : Nat) (r : Reading), rs[k]? = some r → ∃ s, m.Resting (p + k) r s) →
      ∃ snapshots, Completes (pass p rs) m snapshots m := by
  intro rs
  induction rs with
  | nil => exact fun _ => ⟨[], completes_pure.2 ⟨rfl, rfl⟩⟩
  | cons r rs ih =>
    intro p h
    obtain ⟨s, hs⟩ := h 0 r rfl
    obtain ⟨snapshot, last, hreport, hlast, hsame⟩ := hs.report
    have hbuild : Completes (build p r) m snapshot m := by
      have hstate : m.state? p = some s := hs.state?
      simp only [build, completes_get_bind, hstate, hreport, setState, completes_modify_bind]
      exact completes_pure.2 ⟨rfl, by rw [setAt_self hstate]⟩
    obtain ⟨snapshots, hrest⟩ := ih (p := p + 1) fun k r' hr' => by
      rw [show p + 1 + k = p + (k + 1) by omega]
      exact h (k + 1) r' hr'
    refine ⟨snapshot :: snapshots, completes_bind.2 ⟨snapshot, m, hbuild, completes_bind.2 ⟨(), m,
      completes_place_self hs.state? hs.key hs.equal hlast hsame, ?_⟩⟩⟩
    exact completes_bind.2 ⟨snapshots, m, hrest, completes_pure.2 ⟨rfl, rfl⟩⟩

/-- **At rest a run changes nothing.** -/
theorem completes_refresh_self (h : m.AtRest) : Completes refresh m () m := by
  rw [completes_refresh]
  by_cases hempty : m.readings = []
  · exact .inl ⟨hempty, rfl⟩
  · obtain ⟨snapshots, hpass⟩ : ∃ snapshots, Completes (pass 0 m.readings) m snapshots m :=
      completes_pass_self fun k r hr => by
        rw [Nat.zero_add]
        exact h k r hr
    exact .inr ⟨hempty, snapshots,
      completes_bind.2 ⟨(), m, completes_estimateAll_self h, hpass⟩⟩

/-! ### A run brings a monitor to rest -/

/-- **A run brings a monitor to rest.** -/
theorem atRest_runBuilding {snapshots : List Snapshot} (hd : m.store.values.Distinct)
    (htyped : ∀ r ∈ m.readings, r.isWellTyped = true)
    (htrust : m.watch.conditions.useFirmware.isKind .bool = true)
    (h : Completes runBuilding m snapshots m') : m'.AtRest := by
  intro i r hr
  rw [(passed_runBuilding hd h).1] at hr
  have hr' := htyped r (List.mem_of_getElem? hr)
  obtain ⟨snapshot, u, t, -, hhandled⟩ := handled_runBuilding hd hr h
  obtain ⟨s, minutes, latched, -, hminutes, hreport, hu⟩ := hhandled.report
  -- whether it was written or not, what was last published is the snapshot of this run
  obtain ⟨last, hstate, hsame⟩ : ∃ last, m'.state? i = some { s with
      timeRemaining := .int minutes, latched, lastPublished := some last } ∧
        last.same snapshot = true := by
    rw [hhandled.state?]
    cases hhandled.placed with
    | skipped s' last hs' hlast hsame _ heq =>
      obtain rfl := Option.some.inj (hu.symm.trans hs')
      refine ⟨last, ?_, hsame⟩
      rw [heq, ← hlast]
      exact hs'
    | written s' _ _ hs' _ _ hstates _ =>
      obtain rfl := Option.some.inj (hu.symm.trans hs')
      exact ⟨snapshot, by rw [hstates, if_pos rfl],
        (Reading.exact_report hr' rfl htrust hreport).same_self⟩
  have hkey : (r.effectiveKey i).isKind .text = true :=
    Reading.effectiveKey_isKind (Reading.isOptional_storeKey_of_isWellTyped hr') i
  have hwatch := watch_runBuilding hd h
  refine ⟨_, hstate, hhandled.key', Value.equal_self hkey, ⟨minutes, hwatch ▸ hminutes, rfl⟩,
    snapshot, last, ?_, rfl, hsame⟩
  rw [hwatch, ← Reading.report_latched hreport]
  exact Reading.report_congr r rfl rfl rfl rfl

/-! ### The list that the watch has seen last -/

/-- What an event does to the outlook of the watch. -/
def Event.view (o : Outlook) : Event τ → Outlook
  | .support supported => { o with supported }
  | .request r => r.brought.elim o o.saw
  | .windowOver | .elapse _ => o

theorem outlook_batteriesChanged {readings : List Reading}
    (h : Completes (batteriesChanged readings) m () m') :
    m'.watch.outlook = m.watch.outlook.saw readings := by
  obtain ⟨t, watch, hsync, hsaw, hrefresh⟩ := completes_batteriesChanged.1 h
  rw [watch_completes leavesWatch_refresh hrefresh, Watch.outlook_batteriesChanged hsaw,
    watch_completes leavesWatch_syncStates hsync]

/-- **What an event does to the outlook**: only a list and the hardware support change it. -/
theorem outlook_act {e : Event τ} (h : Completes e.act m () m') :
    m'.watch.outlook = e.view m.watch.outlook := by
  cases e with
  | request r =>
    cases r with
    | prime found =>
      rcases found with _ | ⟨_ | ⟨r, rs⟩⟩
      · cases h; rfl
      · cases h; rfl
      · exact outlook_batteriesChanged h
    | batteriesChanged readings => exact outlook_batteriesChanged h
    | wake =>
      simp only [Event.act, Request.act, systemDidWake, completes_get_bind] at h
      split at h
      · cases h; rfl
      · obtain ⟨u, t, hwatch, hrun⟩ := completes_bind.1 h
        obtain ⟨watch, hsuppress, rfl⟩ := completes_onWatch.1 hwatch
        rw [watch_completes leavesWatch_run hrun]
        exact hsuppress.keeps (Watch.keeps_outlook_suppress _) rfl
    | refresh => rw [watch_completes leavesWatch_refresh h]; rfl
  | windowOver =>
    obtain ⟨u, t, hwatch, hrefresh⟩ := completes_bind.1 h
    obtain ⟨watch, hover, rfl⟩ := completes_onWatch.1 hwatch
    rw [watch_completes leavesWatch_refresh hrefresh]
    exact hover.keeps (Watch.keeps_outlook_windowOver _) rfl
  | elapse timers => cases h; rfl
  | support supported => cases h; rfl

/-- The watch has seen the list of the monitor last. -/
structure Following (m : Monitor τ) : Prop where
  fitted : m.Fitted
  distinct : m.store.values.Distinct
  typed : ∀ r ∈ m.readings, r.isWellTyped = true
  seen : m.watch.outlook.Matches m.readings
  trust : m.watch.outlook.useFirmware.isKind .bool = true

omit [Scheduler τ] in
theorem Initial.following (h : m.Initial) : m.Following where
  fitted := h.fitted
  distinct := h.distinct
  typed r hr := by
    rw [h.readings] at hr
    exact absurd hr List.not_mem_nil
  seen := by
    rw [h.readings]
    refine ⟨h.primary, fun _ hr => absurd hr nofun, ?_⟩
    rw [Watch.outlook, h.conditions]
    rfl
  trust := by
    rw [Watch.outlook, h.conditions]
    rfl

/-- **Events keep the watch with the list**, and one that runs the pipeline leaves the monitor at
rest. -/
theorem following_observe {e : Event τ} {o : Option (List Snapshot)} (hfollowing : m.Following)
    (hlist : ∀ rs ∈ e.brought, ∀ r ∈ rs, r.isWellTyped = true)
    (h : Completes e.observe m o m') : m'.Following ∧ (o.isSome → m'.AtRest) := by
  obtain ⟨hturned, hreadings⟩ := turned_observe hfollowing.fitted hfollowing.distinct h
  have houtlook : m'.watch.outlook = e.view m.watch.outlook :=
    outlook_act (Event.completes_act.2 ⟨o, h⟩)
  have htyped : ∀ r ∈ m'.readings, r.isWellTyped = true :=
    hreadings ▸ holds_getD (P := fun rs => ∀ r ∈ rs, r.isWellTyped = true) hfollowing.typed hlist
  have hseen : (e.view m.watch.outlook).Matches (e.brought.getD m.readings) ∧
      (e.view m.watch.outlook).useFirmware.isKind .bool = true := by
    have hseen := hfollowing.seen
    cases e with
    | request r =>
      simp only [Event.view, Event.brought]
      cases r.brought with
      | none => exact ⟨hseen, hfollowing.trust⟩
      | some rs => exact ⟨Outlook.matches_saw _ rs, Outlook.isKind_saw hfollowing.trust rs⟩
    | windowOver | elapse _ => exact ⟨hseen, hfollowing.trust⟩
    | support supported =>
      exact ⟨⟨hseen.primary, hseen.lastExternal, hseen.lastPresent⟩, hfollowing.trust⟩
  rw [← houtlook, ← hreadings] at hseen
  refine ⟨⟨hturned.fitted, hturned.distinct, htyped, hseen.1, hseen.2⟩, fun hsome => ?_⟩
  cases hturned with
  | rested _ _ => exact absurd hsome Bool.false_ne_true
  | ran hsynced hrun =>
    have htrust := hseen.2
    rw [watch_runBuilding hsynced.store.distinct hrun] at htrust
    rw [(passed_runBuilding hsynced.store.distinct hrun).1] at htyped
    exact atRest_runBuilding hsynced.store.distinct htyped htrust hrun

/-! ### The same list once more -/

/-- The monitor at another time, when other timers are pending and the hardware supports the
estimates of the batteries or not. -/
def later (m : Monitor τ) (timers : τ) (supported : Value) : Monitor τ :=
  { m with watch := { m.watch with
    timers, conditions := { m.watch.conditions with supported } } }

/-- The monitor with an equal list of readings in the place of its own. -/
def withReadings (m : Monitor τ) (rs : List Reading) : Monitor τ :=
  { m with readings := rs, watch := { m.watch with primary := rs.head? } }

/-- **At rest a list that is alike changes nothing** but the readings themselves. -/
theorem completes_batteriesChanged_self {rs : List Reading} (hfollowing : m.Following)
    (hrest : m.AtRest) (hlen : m.readings.length = rs.length)
    (halike : ∀ (i : Nat) (r' : Reading), rs[i]? = some r' →
      ∃ r, m.readings[i]? = some r ∧ r.Alike r') :
    Completes (batteriesChanged rs) m () (m.withReadings rs) := by
  have hfitted : ({ m with readings := rs } : Monitor τ).Fitted :=
    fun i => hlen ▸ hfollowing.fitted i
  -- the watch sees the primary battery as it saw it last
  have hexternal : ∀ r ∈ rs.head?, m.watch.conditions.lastExternal = r.externalConnected.truth := by
    intro r hr
    rw [List.head?_eq_getElem?] at hr
    obtain ⟨r₀, hr₀, hfirst⟩ := halike 0 r hr
    rw [← hfirst.externalConnected]
    exact hfollowing.seen.lastExternal r₀ (by rw [List.head?_eq_getElem?]; exact hr₀)
  have hpresent : m.watch.conditions.lastPresent =
      rs.head?.any fun r => r.isPresent.truth := by
    refine hfollowing.seen.lastPresent.trans ?_
    cases rs with
    | nil => rw [List.eq_nil_of_length_eq_zero hlen]
    | cons r rs =>
      obtain ⟨r₀, hr₀, hfirst⟩ := halike 0 r rfl
      rw [List.head?_eq_getElem?, hr₀, List.head?_cons, Option.any_some, Option.any_some,
        hfirst.isPresent]
  exact completes_batteriesChanged.2 ⟨_, _, completes_syncStates_self hfitted,
    Watch.completes_batteriesChanged_same hexternal hpresent,
    completes_refresh_self (hrest.congr rfl rfl rfl rfl halike)⟩

theorem Following.afterAll {start : Monitor τ} {past : List (Event τ)} (h : start.Following)
    (hfaultless : faultless Event.act start past)
    (hlists : ∀ e ∈ past, ∀ rs ∈ e.brought, ∀ r ∈ rs, r.isWellTyped = true) :
    (Effect.afterAll Event.act start past).Following := by
  refine faultless_induction (I := Following) h (fun e m u m' hlist hfollowing h => ?_) hfaultless
    hlists
  obtain ⟨o, h⟩ := Event.completes_act.1 h
  exact (following_observe hfollowing hlist h).1

/-- **A repeated cycle changes nothing.**  When an event has run the pipeline, at the end of any
history without faults over well-typed readings, then at any later moment at which estimates are
suppressed iff they were in this run, and whatever the hardware supports by then, running the
pipeline again and sending the same list again leave the monitor as it is; so does a list that
equals the last one, which only takes its place.  What is observed of the first event is what it does
(`Event.act_eq`). -/
theorem unchanged_of_observe {start : Monitor τ} {past : List (Event τ)} {e : Event τ}
    {snapshots : List Snapshot} (hinitial : start.Initial)
    (hfaultless : faultless Event.act start past)
    (hlists : ∀ e' ∈ e :: past, ∀ rs ∈ e'.brought, ∀ r ∈ rs, r.isWellTyped = true)
    (h : Completes e.observe (afterAll Event.act start past) (some snapshots) m')
    (timers : τ) (supported : Value)
    (hignoring : (m'.later timers supported).watch.isIgnoring = m'.watch.isIgnoring) :
    Completes refresh (m'.later timers supported) () (m'.later timers supported) ∧
    Completes (batteriesChanged m'.readings) (m'.later timers supported) ()
      (m'.later timers supported) ∧
    ∀ rs, Reading.equalLists m'.readings rs = true → (∀ r ∈ rs, r.isWellTyped = true) →
      Completes (batteriesChanged rs) (m'.later timers supported) ()
        ((m'.later timers supported).withReadings rs) := by
  have hfollowing := hinitial.following.afterAll hfaultless fun e' he' =>
    hlists e' (List.mem_cons_of_mem _ he')
  obtain ⟨hfollowing', hrest⟩ := following_observe hfollowing (hlists e List.mem_cons_self) h
  have hlater : (m'.later timers supported).Following :=
    ⟨hfollowing'.fitted, hfollowing'.distinct, hfollowing'.typed,
      ⟨hfollowing'.seen.primary, hfollowing'.seen.lastExternal, hfollowing'.seen.lastPresent⟩,
      hfollowing'.trust⟩
  have hrest' : (m'.later timers supported).AtRest :=
    (hrest rfl).congr rfl rfl rfl hignoring.symm fun i r hr => ⟨r, hr, .refl r⟩
  refine ⟨completes_refresh_self hrest', ?_, fun rs hequal htyped => ?_⟩
  · have hsame : Completes (batteriesChanged m'.readings) (m'.later timers supported) ()
        ((m'.later timers supported).withReadings m'.readings) :=
      completes_batteriesChanged_self hlater hrest' rfl fun i r hr => ⟨r, hr, .refl r⟩
    have hself : (m'.later timers supported).withReadings m'.readings =
        m'.later timers supported := by
      unfold withReadings
      rw [← show (m'.later timers supported).watch.primary = m'.readings.head? from
        hlater.seen.primary]
      rfl
    rwa [hself] at hsame
  · obtain ⟨hlen, halike⟩ := Reading.alike_of_equalLists hequal hfollowing'.typed htyped
    exact completes_batteriesChanged_self hlater hrest' hlen halike

/-- Two batteries share a key, and an hour later, when the hardware has come to support estimates,
nothing has changed: a run does nothing, and neither does the list once more, even with an integer
in the place of the truth value that stood for it. -/
theorem unchanged_of_observe_twins :
    let twins (amperage : Value) : List Reading :=
      [{ storeKey := .text "A", avgAmperage := amperage }, { storeKey := .text "A" }]
    let m' := after (Event.request (.batteriesChanged (twins (.bool true)))).observe onBench
    (m'.later { clock := 3600 } (.bool true)).watch.isIgnoring = m'.watch.isIgnoring ∧
    Completes refresh (m'.later { clock := 3600 } (.bool true)) ()
      (m'.later { clock := 3600 } (.bool true)) ∧
    Completes (batteriesChanged (twins (.int 1))) (m'.later { clock := 3600 } (.bool true)) ()
      ((m'.later { clock := 3600 } (.bool true)).withReadings (twins (.int 1))) := by
  intro twins m'
  obtain ⟨snapshots, h⟩ := completes_of_yields
    (Event.request (.batteriesChanged (twins (.bool true)))).observe onBench (by decide +kernel)
  have hignoring : (m'.later { clock := 3600 } (.bool true)).watch.isIgnoring =
      m'.watch.isIgnoring := by decide +kernel
  have hfaultless : faultless Event.act onBench [] = true := rfl
  obtain ⟨hrun, -, hlist⟩ := unchanged_of_observe initial_onBench hfaultless (by decide +kernel)
    h { clock := 3600 } (.bool true) hignoring
  exact ⟨hignoring, hrun, hlist (twins (.int 1)) (by decide +kernel) (by decide +kernel)⟩

end Monitor

end BatteryMonitor
