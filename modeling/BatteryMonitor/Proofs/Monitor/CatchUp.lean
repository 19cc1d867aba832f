import BatteryMonitor.Proofs.Monitor.Following
import BatteryMonitor.Proofs.Monitor.Totality

/-!
# The file catches up with the store

A monitor whose store is carried by a file goes through events while the disk may refuse to take the
file, and nothing is heard of it if it does (`Monitor.Occasion`).  Nothing but the disk depends on what
was refused, and so it does not matter whether it was refused between events or in the midst of one.

Once the disk takes the file again, a list of batteries that changes the store (`Monitor.Changes`)
writes all of it, with whatever was refused before.  A list that changes nothing writes nothing, even if
the file is behind.  So after a list the file holds the store if and only if the list has changed the
store or the file held it before (`Monitor.catches_up`).

That a list is taken at all is known if its readings are sound (`Monitor.Backed.exists_batteriesChanged`);
and the first battery of a fresh monitor has its record in the file at once
(`Monitor.holdsObject_batteriesChanged`).
-/

namespace BatteryMonitor

namespace Monitor

open Effect

variable {τ : Type} [Scheduler τ] {m m' : Monitor τ} {p : Path}

/-! ### Runs on a disk that may refuse -/

/-- What happens to a monitor, and what becomes of its disk meanwhile. -/
inductive Occasion (τ : Type) where
  | event (e : Event τ)
  /-- the disk is changed from outside: it runs full, is emptied, loses a directory or a file -/
  | disk (change : Disk → Disk)

namespace Occasion

/-- The list that an occasion brings. -/
def brought : Occasion τ → Option (List Reading)
  | event e => e.brought
  | disk _ => none

/-- What a monitor does on an occasion. -/
def act : Occasion τ → M τ Unit
  | event e => e.act
  | disk change => modify fun m =>
    { m with store := { m.store with disk := change m.store.disk } }

end Occasion

theorem Backed.act {o : Occasion τ} (hm : m.Backed p)
    (hbrought : ∀ rs ∈ o.brought, ∀ r ∈ rs, r.isWellTyped = true)
    (h : Completes o.act m () m') : m'.Backed p := by
  cases o with
  | event e =>
    obtain ⟨o, h⟩ := Event.completes_act.1 h
    exact (hm.observe hbrought h).1
  | disk change =>
    obtain rfl := completes_modify.1 h
    exact ⟨hm.fitted, hm.keyed, hm.named, hm.typed, hm.legible.backing, hm.legible.distinct,
      hm.legible.members⟩

theorem backed_afterAll {start : Monitor τ} {d : Disk} {fresh : Store}
    {subscribers : List Subscriber} {past : List (Occasion τ)}
    (hfresh : Store.onFile d p = .ok fresh) (hstart : start.Fresh)
    (hstore : start.store = { fresh with subscribers })
    (hfaultless : faultless Occasion.act start past)
    (htyped : ∀ o ∈ past, ∀ rs ∈ o.brought, ∀ r ∈ rs, r.isWellTyped = true) :
    (afterAll Occasion.act start past).Backed p := by
  have hlegible := (Store.legible_onFile hfresh).withSubscribers subscribers
  have hbacked : start.Backed p := hstart.backed (hstore ▸ hlegible)
  exact faultless_induction (I := Backed p) hbacked (fun o m _ m' ho hm h => hm.act ho h)
    hfaultless htyped

/-- **Sound readings are taken where the disk takes the file**: nothing stops the monitor. -/
theorem Backed.exists_batteriesChanged {m : Monitor Bench} {rs : List Reading} (hm : m.Backed p)
    (htakes : m.store.disk.Takes p)
    (hcalm : ∀ subscriber ∈ m.store.subscribers, subscriber.reaction ≠ .fail)
    (hsound : ∀ r ∈ rs, r.isSound = true) : ∃ m', Completes (batteriesChanged rs) m () m' := by
  have hworking : m.Working (Store.Dependable p) :=
    ⟨hm.fitted, hm.named, ⟨hm.legible, htakes⟩, hcalm⟩
  obtain ⟨o, m', h, -⟩ := exists_changeBuilding (Store.tireless_dependable p) hworking hsound
  rw [batteriesChanged_eq]
  exact ⟨m', completes_discard.2 ⟨o, h⟩⟩

/-- **The first snapshot of a battery brings a record into the file**, where the disk takes it. -/
theorem holdsObject_pass {r : Reading} {snapshots : List Snapshot}
    (hm : m.Working (Store.Dependable p)) (htimed : m.Timed 0 [r]) (hr : r.isSound = true)
    (hnew : ∀ s, m.state? 0 = some s → s.lastPublished = none) (hkey : m.keys.lookup 0 = none)
    (h : Completes (pass 0 [r]) m snapshots m') : ∃ place, m'.store.disk.HoldsObject p place := by
  obtain ⟨snapshot, t, hbuild, h⟩ := completes_bind.1 h
  obtain ⟨u, t', hplace, h⟩ := completes_bind.1 h
  obtain ⟨rest, t'', hrest, h⟩ := completes_bind.1 h
  obtain ⟨-, rfl⟩ := completes_pure.1 hrest
  obtain ⟨-, rfl⟩ := completes_pure.1 h
  obtain ⟨s, latched, hs, hreport, rfl⟩ := completes_build hbuild
  obtain ⟨s', minutes, hs', htime, hminutes⟩ := htimed 0 r rfl
  obtain rfl : s = s' := Option.some.inj (hs.symm.trans hs')
  have hflat := Reading.flat_report (Reading.isWellTyped_of_isSound hr)
    (Reading.estimate_range hminutes) htime hreport
  obtain ⟨name, hname⟩ := Reading.exists_name (Reading.isOptional_storeKey hr) (0 : Nat)
  rw [hname] at hplace
  cases placed_place hplace with
  | skipped s' last hlatched hlast =>
    -- building keeps what was published last, which is nothing
    simp only [state?, lookup_setAt, if_true] at hlatched
    obtain rfl := Option.some.inj hlatched
    cases hlast.symm.trans (hnew s hs)
  | written s' between store _ hvacated hset _ heq =>
    obtain rfl : between = m.store := by
      rcases hvacated with ⟨-, rfl⟩ | ⟨old, ⟨hold, -⟩, -⟩
      · rfl
      · cases hold.symm.trans hkey
    obtain ⟨w, hw, hsave⟩ := hm.store.toReady.exists_save_of_setValue
      (Value.isLegible_mono _ (by decide : 1 ≤ Json.nestingLimit - 1) hflat) hset
    rw [heq]
    exact hw.holdsObject_save hsave

theorem holdsObject_runBuilding {r : Reading} {snapshots : List Snapshot}
    (hm : m.Working (Store.Dependable p)) (hreadings : m.readings = [r]) (hr : r.isSound = true)
    (hstate : m.state? 0 = some {}) (hkey : m.keys.lookup 0 = none)
    (h : Completes runBuilding m snapshots m') : ∃ place, m'.store.disk.HoldsObject p place := by
  obtain ⟨u, e, hestimate, hpass⟩ := completes_bind.1 h
  have hrevised : Revised m e := hestimate.after_eq ▸ revised_estimateAll _
  have hestimated := estimated_estimateAll hestimate
  have htimed : e.Timed 0 [r] := hreadings ▸ hestimated.timed
  have hsame : e.readings = [r] ∧ e.keys = m.keys := by
    rw [hestimated.eq]
    exact ⟨hreadings, rfl⟩
  -- estimating the times publishes nothing
  have hnew : ∀ s, e.state? 0 = some s → s.lastPublished = none := by
    intro s hs
    have hlast := hrevised.lastPublished 0
    rw [hs, hstate] at hlast
    exact Option.some.inj hlast
  rw [completes_get_bind, hsame.1] at hpass
  exact holdsObject_pass (hm.revised hrevised) htimed hr hnew (hsame.2 ▸ hkey) hpass

theorem holdsObject_batteriesChanged {r : Reading} {watch : Watch τ}
    (hm : m.Working (Store.Dependable p)) (hfresh : m.Fresh) (hr : r.isSound = true)
    (hsaw : Completes (Watch.batteriesChanged [r]) m.watch () watch) :
    ∃ place, (after (batteriesChanged [r]) m).store.disk.HoldsObject p place := by
  have htireless := Store.tireless_dependable p
  obtain ⟨t, hsync, hreadings, ht⟩ := hm.exists_synced htireless [r]
  have hwatch : t.watch = m.watch := hsync.keeps (framed_watch m.watch).syncStates rfl
  have hreadings' : ({ t with watch } : Monitor τ).readings = [r] := hreadings
  obtain ⟨snapshots, m', hrun, -⟩ := exists_runBuilding htireless (ht.withWatch watch)
    (hreadings'.symm ▸ List.forall_mem_singleton.2 hr)
  have hchange : Completes (changeBuilding [r]) m (some snapshots) m' := by
    refine completes_changeBuilding.2 ⟨t, watch, hsync, hwatch ▸ hsaw, ?_⟩
    exact completes_refreshBuilding.2
      (.inr ⟨hreadings'.trans_ne (List.cons_ne_nil _ _), snapshots, rfl, hrun⟩)
  have hsynced := synced_syncStates (m := { m with readings := [r] }) hm.store.distinct hsync
  have hstate : t.state? 0 = some {} := by
    refine (hsynced.state? 0).trans ?_
    rw [state?, show ({ m with readings := [r] } : Monitor τ).states = [] from hfresh.states]
    rfl
  have hkey : t.keys.lookup 0 = none := by
    rw [hsynced.keys, show ({ m with readings := [r] } : Monitor τ).keys = [] from hfresh.keys]
    split <;> rfl
  rw [batteriesChanged_eq, after_discard, hchange.after_eq]
  exact holdsObject_runBuilding (ht.withWatch watch) hreadings' hr hstate hkey hrun

/-- A list that comes changes the store: it is shorter than the one before, or a snapshot is built
from it that was not published already for its index and under the same key. -/
def Changes (m : Monitor τ) (rs : List Reading) (snapshots : List Snapshot) : Prop :=
  rs.length < m.readings.length ∨ m.Renewed 0 rs snapshots

/-- **The file catches up with the first change.**  A monitor whose store is carried by a file has
gone through any history without faults over well-typed readings, while the disk has refused to take
the file or has taken it.  If it takes the file when a list of batteries comes, then afterwards what is
read from the file is what the store holds if and only if the list has changed the store or that was
so before; and a list that has not changed the store has left it, and the file, as they were. -/
theorem catches_up {start : Monitor τ} {d : Disk} {fresh : Store} {subscribers : List Subscriber}
    {past : List (Occasion τ)} {rs : List Reading} (hfresh : Store.onFile d p = .ok fresh)
    (hstart : start.Fresh) (hstore : start.store = { fresh with subscribers })
    (hfaultless : faultless Occasion.act start past)
    (htyped : ∀ o ∈ past, ∀ rs ∈ o.brought, ∀ r ∈ rs, r.isWellTyped = true)
    (hne : rs ≠ []) (hrs : ∀ r ∈ rs, r.isWellTyped = true)
    (htakes : (afterAll Occasion.act start past).store.disk.Takes p)
    (h : Completes (batteriesChanged rs) (afterAll Occasion.act start past) () m') :
    ∃ snapshots,
      Completes (changeBuilding rs) (afterAll Occasion.act start past) (some snapshots) m' ∧
      (m'.store.Mirrored p ↔ (afterAll Occasion.act start past).Changes rs snapshots ∨
        (afterAll Occasion.act start past).store.Mirrored p) ∧
      (¬ (afterAll Occasion.act start past).Changes rs snapshots →
        m'.store = (afterAll Occasion.act start past).store) := by
  have hm := backed_afterAll hfresh hstart hstore hfaultless htyped
  generalize afterAll Occasion.act start past = m at hm htakes h ⊢
  rw [batteriesChanged_eq, completes_discard] at h
  obtain ⟨o, h⟩ := h
  cases o with
  | none => exact absurd (eq_nil_of_changeBuilding hm.legible.distinct h) hne
  | some snapshots =>
    have hbrought : ∀ rs' ∈ (Event.request (.batteriesChanged rs) : Event τ).brought,
        ∀ r ∈ rs', r.isWellTyped = true := by
      rintro _ ⟨⟩
      exact hrs
    obtain ⟨-, hreadings, hfollows⟩ :=
      hm.observe (e := .request (.batteriesChanged rs)) hbrought h
    have hchanges : m.Changes rs snapshots ↔ m'.readings.length < m.readings.length ∨
        ∃ built ∈ some snapshots, m.Renewed 0 m'.readings built := by
      rw [hreadings]
      simp [Changes, Event.brought, Request.brought]
    have hfollows := hfollows.congr hchanges
    refine ⟨snapshots, h, ⟨fun hmirrored => ?_, fun hchanged => ?_⟩, hfollows.kept⟩
    · by_cases hchanged : m.Changes rs snapshots
      · exact .inl hchanged
      · exact .inr (hfollows.kept hchanged ▸ hmirrored)
    · by_cases hchanged' : m.Changes rs snapshots
      · exact hfollows.mirrored ⟨hm.legible, htakes⟩ hchanged'
      · rw [hfollows.kept hchanged']
        exact hchanged.resolve_left hchanged'

/-- Where the records of a monitor are kept. -/
def recordsFile : Path where
  root := ""
  names := ["records.json"]

/-- A monitor as it is made over a store. -/
def boot (store : Store) : Monitor Bench := { watch := { timers := {} }, store }

theorem fresh_boot {store : Store} (h : store.values.Distinct) : (boot store).Fresh :=
  ⟨rfl, rfl, rfl, h⟩

/-- A battery with a key. -/
def keyed (key : String) : Reading := { storeKey := .text key }

/-- A store on a disk that is full and holds nothing. -/
def onFullDisk : Store where
  backing := some recordsFile
  disk := { full := true }

/-- Batteries come while the disk is full; then there is space on it again. -/
def refusedOnce (rs : List Reading) : List (Occasion Bench) :=
  [.disk fun d => { d with full := false }, .event (.request (.batteriesChanged rs))]

theorem takes_of_toOption {d : Disk} (h : (d.replaceFile p "").toOption.isSome = true) :
    d.Takes p :=
  exists_ok_of_toOption h

/-- Two batteries are refused; when one of them goes the file catches up with the other. -/
theorem catches_up_shorterList : ∃ m' : Monitor Bench,
    Completes (batteriesChanged [keyed "A"])
      (afterAll Occasion.act (boot onFullDisk) (refusedOnce [keyed "A", keyed "B"])) () m' ∧
    m'.store.Mirrored recordsFile := by
  have hfresh : Store.onFile { full := true } recordsFile = .ok onFullDisk := rfl
  have hstart : (boot onFullDisk).Fresh := fresh_boot .nil
  have hstore : (boot onFullDisk).store = { onFullDisk with subscribers := [] } := rfl
  have hfaultless : faultless Occasion.act (boot onFullDisk)
      (refusedOnce [keyed "A", keyed "B"]) = true := by decide +kernel
  have htyped : ∀ o ∈ (refusedOnce [keyed "A", keyed "B"] : List (Occasion Bench)),
      ∀ rs ∈ o.brought, ∀ r ∈ rs, r.isWellTyped = true := by decide +kernel
  have htakes : (afterAll Occasion.act (boot onFullDisk)
      (refusedOnce [keyed "A", keyed "B"])).store.disk.Takes recordsFile :=
    takes_of_toOption (by decide +kernel)
  have hm := backed_afterAll hfresh hstart hstore hfaultless htyped
  have hsound : ∀ r ∈ [keyed "A"], r.isSound = true := by decide +kernel
  obtain ⟨m', h⟩ := hm.exists_batteriesChanged htakes (by decide +kernel) hsound
  obtain ⟨snapshots, -, hmirrored, -⟩ := catches_up hfresh hstart hstore hfaultless htyped
    (List.cons_ne_nil _ _) (by decide +kernel) htakes h
  exact ⟨m', h, hmirrored.2 (.inl (.inl (by decide +kernel)))⟩

/-- When a battery that was refused is reported again the store is not changed, and the file, which
could be written by now, stays empty. -/
theorem stale_after_refusal :
    let m := afterAll Occasion.act (boot onFullDisk) (refusedOnce [keyed "A"])
    faultless Occasion.act (boot onFullDisk) (refusedOnce [keyed "A"]) = true ∧
    m.store.disk.Takes recordsFile ∧ ∃ m', Completes (batteriesChanged [keyed "A"]) m () m' ∧
      m'.store.keys = [.text "A"] ∧ ¬ m'.store.Mirrored recordsFile := by
  have hclean : isClean (batteriesChanged [keyed "A"]) (afterAll Occasion.act (boot onFullDisk)
      (refusedOnce [keyed "A"])) = true := by decide +kernel
  obtain ⟨⟨⟩, h⟩ := completes_of_isClean hclean
  refine ⟨by decide +kernel, takes_of_toOption (by decide +kernel), _, h, by decide +kernel, ?_⟩
  rintro ⟨values, hload, hequal, -⟩
  have hempty : ((after (batteriesChanged [keyed "A"]) (afterAll Occasion.act (boot onFullDisk)
      (refusedOnce [keyed "A"]))).store.disk.loadState recordsFile).toOption.map List.length =
      some 0 := by decide +kernel
  rw [hload] at hempty
  obtain rfl := List.length_eq_zero_iff.1 (Option.some.inj hempty)
  exact absurd hequal (by decide +kernel)

end Monitor

end BatteryMonitor
