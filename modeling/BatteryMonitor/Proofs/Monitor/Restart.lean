import BatteryMonitor.Proofs.Monitor.CatchUp
import BatteryMonitor.Proofs.Monitor.Outcome
import BatteryMonitor.Proofs.Monitor.Records

/-!
# A restart over the file of an earlier run

A new monitor takes over the records that its file holds, but it does not know which of them were
published for a battery: that is kept by index, and forgotten when a run ends.  So its first list of
batteries sets a record for each of them and takes none away (`Monitor.Restarted`).  A record that no
battery of this list claims stays in the store, and it is written to the file again; none is left over
if and only if the list claims all that was in the file (`Monitor.no_ghosts_iff`).
-/

namespace BatteryMonitor

namespace Monitor

open Effect

variable {τ : Type} {start m' : Monitor τ} {d : Disk} {p : Path} {fresh s s' : Store}
  {rs : List Reading} {o : Option (List Snapshot)} {t t' : Table Value}

/-! ### Tables that a list covers -/

/-- Every record of the table belongs to a battery of the list. -/
def Covers (rs : List Reading) (t : Table Value) : Prop :=
  ∀ k, (t.find? k).isSome → Claimed 0 rs k.toValue

theorem covers_congr (h : ∀ k, ¬ Claimed 0 rs k.toValue →
    (t'.find? k).isSome = (t.find? k).isSome) : Covers rs t' ↔ Covers rs t := by
  refine forall_congr' fun k => ?_
  by_cases hk : Claimed 0 rs k.toValue
  · simp only [hk, implies_true]
  · rw [h k hk]

theorem isSome_find?_of_rel {k : Key} (h : Option.Rel (fun v w : Value => v.same w = true)
    (t'.find? k) (t.find? k)) : (t'.find? k).isSome = (t.find? k).isSome := by
  generalize t'.find? k = v, t.find? k = w at h
  cases h <;> rfl

/-! ### The first list -/

/-- **What the first list does to the records** that were in the file: the file holds the store, a record
that no battery claims stays what it was, and every battery has one, unless a subscriber removes it. -/
structure Restarted (p : Path) (s : Store) (rs : List Reading) (s' : Store) : Prop where
  ready : s'.Ready p
  mirrored : s'.Mirrored p
  stays : ∀ v, ¬ Claimed 0 rs v → s'.record? v = s.record? v
  shown : s.Quiet → Reading.DistinctKeys rs → ∀ (i : Nat) (r : Reading), rs[i]? = some r →
    (s'.record? (r.effectiveKey i)).isSome

theorem Fresh.renewed {snapshots : List Snapshot} (h : start.Fresh) (hne : rs ≠ [])
    (hlength : snapshots.length = rs.length) : start.Renewed 0 rs snapshots := by
  obtain ⟨r, rest, rfl⟩ := List.exists_cons_of_ne_nil hne
  obtain ⟨snapshot, others, rfl⟩ := List.exists_cons_of_length_eq_add_one hlength
  refine ⟨0, r, snapshot, rfl, rfl, ?_⟩
  rintro ⟨⟨last, hlast, -⟩, -⟩
  rw [h.state?] at hlast
  cases hlast

theorem Fresh.not_publishedUnder (h : start.Fresh) (js : List Nat) (v : Value) :
    ¬ start.PublishedUnder js v := by
  rintro ⟨j, -, key, hkey, -⟩
  rw [h.keys] at hkey
  cases hkey

theorem Fresh.unpublished {t : Monitor τ} (h : start.Fresh)
    (hsynced : Synced { start with readings := rs } t) :
    (∀ js v, ¬ t.PublishedUnder js v) ∧ ∀ i, (t.state? i).bind (·.lastPublished) = none := by
  refine ⟨fun js v => ?_, fun i => ?_⟩
  · rintro ⟨j, -, key, hkey, -⟩
    rw [hsynced.keys, h.keys] at hkey
    split at hkey <;> cases hkey
  · rw [hsynced.state?]
    split
    · rw [show ({ start with readings := rs } : Monitor τ).state? i = none from h.state? i]
      rfl
    · rfl

section Runs

variable [Scheduler τ]

theorem Handled.isSome_record? {m u t : Monitor τ} {k : Nat} {r : Reading} {snapshot : Snapshot}
    (h : Handled m k r snapshot u t m') (hquiet : m.store.Quiet)
    (hkeys : Reading.DistinctKeys m.readings) (hr : m.readings[k]? = some r)
    (hnew : (m.state? k).bind (·.lastPublished) = none)
    (hunpublished : ∀ js v, ¬ m.PublishedUnder js v) :
    (m'.store.record? (r.effectiveKey k)).isSome := by
  obtain ⟨s₀, minutes, latched, hs₀, -, -, hu⟩ := h.report
  cases h.placed with
  | skipped s last hs hlast =>
    obtain rfl := Option.some.inj (hu.symm.trans hs)
    rw [hs₀] at hnew
    cases hnew.symm.trans hlast
  | written s between store hs hvacated hset hstates heq =>
    have hvacant := hvacated.rekeyed h.before.distinct
    obtain ⟨hsome, -, hown⟩ := Store.record?_setValue hvacant.distinct hset
    have hstore : t.store = store := by rw [heq]
    -- no battery after this one has its key
    rw [h.after.stays _ (hunpublished _ _) (not_claimed_drop hkeys hr hsome), hstore]
    rcases hown _ rfl with hnew | ⟨hloud, -⟩
    · rw [hnew]
      rfl
    · exact absurd (hvacant.quiet (h.before.quiet hquiet)) hloud

/-- **The first list of a new monitor.** -/
theorem restarted_observe {e : Event τ} (hstart : start.Fresh) (hready : start.store.Ready p)
    (hbrought : e.brought = some rs) (hne : rs ≠ []) (htyped : ∀ r ∈ rs, r.isWellTyped = true)
    (h : Completes e.observe start o m') : Restarted p start.store rs m'.store := by
  have hm := hstart.backed hready.toLegible
  have hlist : ∀ rs' ∈ e.brought, ∀ r ∈ rs', r.isWellTyped = true := by
    rw [hbrought]
    rintro _ ⟨⟩
    exact htyped
  obtain ⟨-, hreadings, hfollows⟩ := hm.observe hlist h
  rw [hbrought, Option.getD_some] at hreadings
  obtain ⟨hturned, -⟩ := turned_observe hm.fitted hready.distinct h
  cases hturned with
  | rested => exact absurd (eq_nil_of_brought hready.distinct h rs hbrought) hne
  | @ran t _ snapshots hsynced hrun =>
    have hd : t.store.values.Distinct := hsynced.store.distinct
    have htreadings : t.readings = rs := (passed_runBuilding hd hrun).1.symm.trans hreadings
    have hlength : snapshots.length = rs.length := htreadings ▸ length_runBuilding hrun
    obtain ⟨hunpublished, hnew⟩ := hstart.unpublished hsynced
    refine ⟨hfollows.ready hready, hfollows.mirrored hready
      (.inr ⟨snapshots, rfl, hreadings ▸ hstart.renewed hne hlength⟩), fun v hv => ?_,
      fun hquiet hkeys i r hr => ?_⟩
    · rw [(rekeyed_runBuilding hd hrun).stays v (hunpublished _ _) (htreadings ▸ hv)]
      exact hsynced.store.stays v (hstart.not_publishedUnder _ _) not_false
    · rw [← htreadings] at hkeys hr
      obtain ⟨snapshot, u, w, -, hhandled⟩ := handled_runBuilding hd hr hrun
      exact hhandled.isSome_record? (hsynced.store.quiet hquiet) hkeys hr (hnew i) hunpublished

/-- None of the records that no battery claims is left over if there was none. -/
theorem Restarted.covers_iff (h : Restarted p s rs s') :
    Covers rs s'.values ↔ Covers rs s.values := by
  refine covers_congr fun k hk => ?_
  rw [← record?_toValue, ← record?_toValue, h.stays _ hk]

/-- The file can be read again, and what is read has a record wherever the store has one. -/
theorem Restarted.exists_onFile (h : Restarted p s rs s') : ∃ fresh,
    Store.onFile s'.disk p = .ok fresh ∧
    ∀ k, (fresh.values.find? k).isSome = (s'.values.find? k).isSome := by
  obtain ⟨values, hload, -, hrel⟩ := h.mirrored
  refine ⟨{ values, backing := some p, disk := s'.disk }, ?_, fun k => isSome_find?_of_rel (hrel k)⟩
  rw [Store.onFile, hload]
  rfl

/-- **A restart leaves the records that the new list does not claim.**  A new monitor starts over any
file that the disk takes, and completes its first list of well-typed readings, be it primed with
it or not.  Then the file holds the store; every record under a key that is none of the list's is
what it was in the file before; and so there is no such record, in the store and in the file, if
and only if there was none in the file before. -/
theorem no_ghosts_iff {subscribers : List Subscriber} {q : Request}
    (hfresh : Store.onFile d p = .ok fresh) (htakes : d.Takes p) (hstart : start.Fresh)
    (hstore : start.store = { fresh with subscribers }) (hbrought : q.brought = some rs)
    (hne : rs ≠ []) (htyped : ∀ r ∈ rs, r.isWellTyped = true)
    (h : Completes q.act start () m') :
    (∀ v, ¬ Claimed 0 rs v → m'.store.record? v = fresh.record? v) ∧
    ∃ values, m'.store.disk.loadState p = .ok values ∧
      (Value.object values).equal (.object m'.store.values) = true ∧
      ((Covers rs m'.store.values ∧ Covers rs values) ↔ Covers rs fresh.values) := by
  have hlegible := (Store.legible_onFile hfresh).withSubscribers subscribers
  obtain ⟨loaded, -, heq⟩ := Store.onFile_eq_ok_iff.1 hfresh
  have hready : start.store.Ready p := by
    rw [hstore]
    exact ⟨hlegible, by rw [heq]; exact htakes⟩
  have h : Completes (Event.act (.request q)) start () m' := h
  obtain ⟨o, h⟩ := Event.completes_act.1 h
  have hrestarted := restarted_observe (e := .request q) hstart hready hbrought hne htyped h
  obtain ⟨values, hload, hequal, hrel⟩ := hrestarted.mirrored
  have hcovers : Covers rs m'.store.values ↔ Covers rs fresh.values := by
    rw [hrestarted.covers_iff, hstore]
  have hfile : Covers rs values ↔ Covers rs m'.store.values :=
    covers_congr fun k _ => isSome_find?_of_rel (hrel k)
  refine ⟨fun v hv => ?_, values, hload, hequal, ?_⟩
  · rw [hrestarted.stays v hv, hstore]
    rfl
  · rw [hfile, and_self, hcovers]

end Runs

/-! ### Two lives -/

theorem exists_restarted (hfresh : Store.onFile d p = .ok fresh) (htakes : d.Takes p) (hne : rs ≠ [])
    (hsound : ∀ r ∈ rs, r.isSound = true) :
    ∃ m', Completes (batteriesChanged rs) (boot fresh) () m' ∧ Restarted p fresh rs m'.store := by
  have hlegible := Store.legible_onFile hfresh
  have hstart : (boot fresh).Fresh := fresh_boot hlegible.distinct
  obtain ⟨loaded, -, rfl⟩ := Store.onFile_eq_ok_iff.1 hfresh
  obtain ⟨m', h⟩ := (hstart.backed hlegible).exists_batteriesChanged htakes
    (List.forall_mem_nil _) hsound
  have hact : Completes (Event.act (.request (.batteriesChanged rs))) (boot _) () m' := h
  obtain ⟨o, hobserve⟩ := Event.completes_act.1 hact
  exact ⟨m', h, restarted_observe (e := .request (.batteriesChanged rs)) hstart ⟨hlegible, htakes⟩
    rfl hne (fun r hr => Reading.isWellTyped_of_isSound (hsound r hr)) hobserve⟩

/-- A store whose file is not there yet. -/
def emptyStore : Store where
  backing := some recordsFile

theorem onFile_empty : Store.onFile {} recordsFile = .ok emptyStore := rfl

theorem takes_empty : ({} : Disk).Takes recordsFile :=
  takes_of_toOption (by decide +kernel)

/-- A monitor that is made again for the same batteries leaves no record to another one. -/
theorem no_ghosts_iff_sameList : ∃ (m₁ m₂ : Monitor Bench) (fresh : Store),
    Completes (batteriesChanged [keyed "A", keyed "B"]) (boot emptyStore) () m₁ ∧
    Store.onFile m₁.store.disk recordsFile = .ok fresh ∧
    Completes (batteriesChanged [keyed "A", keyed "B"]) (boot fresh) () m₂ ∧
    Covers [keyed "A", keyed "B"] m₂.store.values := by
  have hsound : ∀ r ∈ [keyed "A", keyed "B"], r.isSound = true := by decide +kernel
  have htyped : ∀ r ∈ [keyed "A", keyed "B"], r.isWellTyped = true := by decide +kernel
  obtain ⟨m₁, h₁, hrestarted⟩ :=
    exists_restarted onFile_empty takes_empty (List.cons_ne_nil _ _) hsound
  obtain ⟨fresh, hfresh, hfind⟩ := hrestarted.exists_onFile
  obtain ⟨m₂, h₂, -⟩ := exists_restarted hfresh hrestarted.ready.takes (List.cons_ne_nil _ _) hsound
  refine ⟨m₁, m₂, fresh, h₁, hfresh, h₂, ?_⟩
  have hcovers : Covers [keyed "A", keyed "B"] fresh.values := by
    refine (covers_congr fun k _ => hfind k).2 (hrestarted.covers_iff.2 fun k hk => ?_)
    cases hk
  have hstart : (boot fresh).Fresh := fresh_boot (Store.legible_onFile hfresh).distinct
  have hstore : (boot fresh).store = { fresh with subscribers := [] } := by
    obtain ⟨loaded, -, rfl⟩ := Store.onFile_eq_ok_iff.1 hfresh
    rfl
  obtain ⟨-, values, -, -, hiff⟩ := no_ghosts_iff (q := .batteriesChanged _) hfresh
    hrestarted.ready.takes hstart hstore rfl (List.cons_ne_nil _ _) htyped h₂
  exact (hiff.2 hcovers).1

/-- A monitor that is made again for one of two batteries leaves the record of the other one in its
store, and in the file. -/
theorem ghost_after_restart : ∃ (m₁ m₂ : Monitor Bench) (fresh : Store),
    Completes (batteriesChanged [keyed "A", keyed "B"]) (boot emptyStore) () m₁ ∧
    Store.onFile m₁.store.disk recordsFile = .ok fresh ∧
    Completes (batteriesChanged [keyed "A"]) (boot fresh) () m₂ ∧
    (m₂.store.record? (.text "B")).isSome ∧ m₂.store.Mirrored recordsFile ∧
    ¬ Claimed 0 [keyed "A"] (.text "B") := by
  obtain ⟨m₁, h₁, hfirst⟩ := exists_restarted onFile_empty takes_empty
    (List.cons_ne_nil (keyed "A") [keyed "B"]) (by decide +kernel)
  obtain ⟨fresh, hfresh, hfind⟩ := hfirst.exists_onFile
  obtain ⟨m₂, h₂, hsecond⟩ := exists_restarted hfresh hfirst.ready.takes
    (List.cons_ne_nil (keyed "A") []) (by decide +kernel)
  have hunclaimed : ¬ Claimed 0 [keyed "A"] (.text "B") := by
    rintro ⟨_ | k, r, hr, hentry⟩
    · cases hr
      exact absurd hentry (by decide +kernel)
    · cases hr
  have hshown : (m₁.store.record? (.text "B")).isSome :=
    hfirst.shown (List.forall_mem_nil _) (by decide +kernel) 1 (keyed "B") rfl
  refine ⟨m₁, m₂, fresh, h₁, hfresh, h₂, ?_, hsecond.mirrored, hunclaimed⟩
  rw [hsecond.stays _ hunclaimed]
  exact (hfind (.text "B")).trans hshown

end Monitor

end BatteryMonitor
