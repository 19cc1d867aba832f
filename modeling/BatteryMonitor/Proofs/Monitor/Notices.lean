import BatteryMonitor.Proofs.Hearing
import BatteryMonitor.Proofs.Monitor.Rest
import Mathlib.Data.List.Destutter

/-!
# What is heard of one battery

When every index has a key of its own, a listener hears of the key of one index what becomes of
this one battery.  The history falls into stretches during which the index is in the list.

* `Stretch` : one stretch, with the records that the runs of the pipeline built for the index.
* `Stretch.notices` : what ought to be heard of it.  Equal records in a row are one, and the end of
  the stretch is that the key is removed.
* `Heard` : what is heard in one event, given the record that stood there before and the one that
  the event builds.
* `Monitor.heardOf_afterAll` : **what is heard of the key along a history are the notices of the
  stretches**, one after the other.

The proof follows what is shown of the index (`Monitor.Shown`): the record under its key is the one
of the snapshot that was published last, and the index is still known under this key.  No other
index touches the key (`Monitor.glance_pass`), so that only the turn of the index itself counts
(`Monitor.shown_place`), and there snapshots are compared where the stretches compare records
(`Snapshot.Exact.same_iff`).  So every event is heard of as the stretches have it
(`Monitor.follows_observe`).
-/

namespace BatteryMonitor

/-! ### Stretches -/

/-- A stretch of a history during which an index is in the list. -/
structure Stretch where
  /-- the records that were built for the index, the last first -/
  records : List (Table Value)
  ended : Bool := false

namespace Stretch

/-- What ought to be heard of a stretch, the last first: its records, equal ones in a row being one,
and, when it is over, that the key was removed. -/
def notices (s : Stretch) : List (Option Value) :=
  (if s.ended then [none] else []) ++
    (s.records.destutter (· ≠ ·)).map fun record => some (.object record)

/-- The stretches after one more event, after which the index is in the list or not, and which may
have built a record for it. -/
def follow (present : Bool) (record : Option (Table Value)) : List Stretch → List Stretch
  | s :: earlier =>
    if present then
      if s.ended then { records := record.toList } :: s :: earlier
      else { s with records := record.toList ++ s.records } :: earlier
    else { s with ended := true } :: earlier
  | [] => if present then [{ records := record.toList }] else []

theorem notices_cons (record last : Table Value) (older : List (Table Value)) :
    notices { records := record :: last :: older } =
      (if last = record then [] else [some (.object record)]) ++
        notices { records := last :: older } := by
  simp only [notices, Bool.false_eq_true, if_false, List.nil_append, List.destutter_cons_cons]
  by_cases h : record = last
  · rw [h, if_pos rfl, if_neg (not_not_intro rfl), List.nil_append]
    rfl
  · rw [if_neg (Ne.symm h), if_pos h]
    rfl

/-- The record at the end of the stretches is `last`; there is none if the last stretch is over. -/
inductive Ends : List Stretch → Option (Table Value) → Prop
  | ended {stretches : List Stretch} (h : ∀ s ∈ stretches.head?, s.ended = true) :
    Ends stretches none
  | going {record : Table Value} {older : List (Table Value)} {earlier : List Stretch} :
    Ends ({ records := record :: older } :: earlier) (some record)

end Stretch

/-- **What is heard in one event** of an index whose record was `last` and becomes `last'`. -/
inductive Heard (last : Option (Table Value)) :
    (present : Bool) → (record last' : Option (Table Value)) → List (Option Value) → Prop
  /-- it is not in the list, so that its record goes if it had one -/
  | away {record : Option (Table Value)} :
    Heard last false record none (if last.isSome then [none] else [])
  /-- it is in the list, but nothing is run -/
  | idle (h : last.isSome) : Heard last true none last []
  /-- a record is built, and heard of if it is another one than before -/
  | built {record : Table Value} : Heard last true (some record) (some record)
    (if last = some record then [] else [some (.object record)])

/-- **The stretches say what is heard in one event.** -/
theorem Heard.follow {last record last' : Option (Table Value)} {present : Bool}
    {news : List (Option Value)} {stretches : List Stretch}
    (h : Heard last present record last' news) (hends : Stretch.Ends stretches last) :
    Stretch.Ends (Stretch.follow present record stretches) last' ∧
      (Stretch.follow present record stretches).flatMap Stretch.notices =
        news ++ stretches.flatMap Stretch.notices := by
  cases hends with
  | ended hended =>
    cases h with
    | away =>
      cases stretches with
      | nil => exact ⟨.ended nofun, rfl⟩
      | cons s earlier =>
        have hs : { s with ended := true } = s := by rw [← hended s rfl]
        simp only [Stretch.follow, Bool.false_eq_true, if_false, hs]
        exact ⟨.ended hended, rfl⟩
    | idle hsome => exact absurd hsome Bool.false_ne_true
    -- the index comes into the list, and a stretch begins
    | built =>
      cases stretches with
      | nil => exact ⟨.going, rfl⟩
      | cons s earlier =>
        simp only [Stretch.follow, if_true, hended s rfl]
        exact ⟨.going, rfl⟩
  | @going last older earlier =>
    cases h with
    | away => exact ⟨.ended fun s hs => by cases hs; rfl, rfl⟩
    | idle _ => exact ⟨.going, rfl⟩
    | @built record =>
      refine ⟨.going, ?_⟩
      simp only [Stretch.follow, if_true, Bool.false_eq_true, if_false, Option.toList_some,
        List.singleton_append, List.flatMap_cons, Stretch.notices_cons, List.append_assoc,
        Option.some.injEq]

namespace Monitor

open Effect

variable {τ : Type} {m m' : Monitor τ} {i j : Nat} {name : String} {keyOf : Nat → Text}
  {snapshot : Snapshot} {last : Option (Table Value)} {A : Store → Prop}
  {base : List Subscriber}

/-- Those who hear of the store are as `A` says, and every index is only known under its own key. -/
structure Orderly (A : Store → Prop) (keyOf : Nat → Text) (m : Monitor τ) : Prop where
  distinct : m.store.values.Distinct
  audience : A m.store
  named : ∀ (j : Nat) (key : Value), m.keys.lookup j = some key → key = .text (keyOf j)

/-! ### The other indices -/

theorem Orderly.not_moves (hm : m.Orderly A keyOf) (j : Nat) (old : Value) :
    ¬ m.Moves j (.text (keyOf j)) old := by
  rintro ⟨hold, -, hequal⟩
  rw [hm.named j old hold, Value.equal_text _] at hequal
  cases hequal

theorem Orderly.store_eq_of_vacated (hm : m.Orderly A keyOf) {store : Store}
    (h : m.Vacated j (.text (keyOf j)) store) : store = m.store := by
  rcases h with ⟨-, rfl⟩ | ⟨old, hmoves, -⟩
  · rfl
  · exact absurd hmoves (hm.not_moves j old)

theorem Orderly.congr (hm : m.Orderly A keyOf) (hstore : m'.store = m.store)
    (hkeys : m'.keys = m.keys) : m'.Orderly A keyOf :=
  ⟨hstore ▸ hm.distinct, hstore ▸ hm.audience, hkeys ▸ hm.named⟩

/-- **Dropping an index** takes the record under its key away, if it has one. -/
theorem orderly_dropBattery (hA : Store.Upheld A) (hm : m.Orderly A keyOf)
    (h : Completes (dropBattery j) m () m') :
    m'.Orderly A keyOf ∧
    (∀ i, m'.keys.lookup i = if i = j then none else m.keys.lookup i) ∧
    (m.keys.lookup j = none ∧ m'.store = m.store ∨ (m.keys.lookup j).isSome ∧
      Completes (Store.removeValue (.text (keyOf j))) m.store () m'.store) := by
  simp only [dropBattery, completes_get_bind, completes_modify_bind] at h
  have hlookup (i : Nat) : (eraseAt j m.keys).lookup i =
      if i = j then none else m.keys.lookup i := lookup_eraseAt j i m.keys
  have hnamed : ∀ (i : Nat) (key : Value), (eraseAt j m.keys).lookup i = some key →
      key = .text (keyOf i) := by
    intro i key hkey
    rw [hlookup] at hkey
    split at hkey
    · cases hkey
    · exact hm.named i key hkey
  cases hkey : m.keys.lookup j with
  | none =>
    rw [hkey] at h
    obtain ⟨-, rfl⟩ := completes_pure.1 h
    exact ⟨⟨hm.distinct, hm.audience, hnamed⟩, hlookup, .inl ⟨rfl, rfl⟩⟩
  | some key =>
    obtain rfl := hm.named j key hkey
    simp only [hkey, Value.isNull, Bool.false_eq_true, if_false] at h
    obtain ⟨store, hstore, rfl⟩ := completes_onStore.1 h
    exact ⟨⟨hstore.keeps (Store.keeps_distinct_removeValue _) hm.distinct,
      hstore.keeps (hA.remove _) hm.audience, hnamed⟩, hlookup,
      .inr ⟨rfl, hstore⟩⟩

/-- **Placing a snapshot** writes it under the key of the index, or does nothing to the store. -/
theorem orderly_place (hA : Store.Upheld A)
    (h : Completes (place j (.text (keyOf j)) snapshot) m () m')
    (hm : m.Orderly A keyOf) : m'.Orderly A keyOf ∧ (m'.store = m.store ∨ Completes
      (Store.setValue (.text (keyOf j)) (.object snapshot.toRecord)) m.store () m'.store) := by
  have hplaced := placed_place h
  have hnamed : ∀ (i : Nat) (key : Value), m'.keys.lookup i = some key →
      key = .text (keyOf i) := by
    intro i key hkey
    rw [hplaced.keys] at hkey
    split at hkey
    · rename_i hij
      rw [hij, ← Option.some.inj hkey]
    · exact hm.named i key hkey
  cases hplaced with
  | skipped s last hs hlast hsame hstay heq =>
    have hstore : m'.store = m.store := by rw [heq]
    exact ⟨⟨hstore ▸ hm.distinct, hstore ▸ hm.audience, hnamed⟩, .inl hstore⟩
  | written s between store hs hvacated hset hstates heq =>
    obtain rfl := hm.store_eq_of_vacated hvacated
    have hstore : m'.store = store := by rw [heq]
    exact ⟨⟨hstore ▸ hset.keeps (Store.keeps_distinct_setValue _ _) hm.distinct,
      hstore ▸ hset.keeps (hA.set _ _) hm.audience, hnamed⟩,
      .inr (hstore ▸ hset)⟩

/-- What is known of the key of an index: what was heard of it, and its record. -/
def glance (name : String) (keyOf : Nat → Text) (i : Nat) (m : Monitor τ) :
    List (Option Value) × Option Value :=
  m.store.glance name (keyOf i)

/-- **A pass over other batteries** is nothing to the key of an index. -/
theorem glance_pass [Scheduler τ] (hA : Store.Upheld A) (hinj : Function.Injective keyOf) :
    ∀ {rs : List Reading} {p : Nat} {snapshots : List Snapshot} {m m' : Monitor τ},
      m.Orderly A keyOf →
      (∀ (k : Nat) (r : Reading), rs[k]? = some r →
        r.effectiveKey (p + k : Nat) = .text (keyOf (p + k))) →
      (i < p ∨ p + rs.length ≤ i) → Completes (pass p rs) m snapshots m' →
        m'.Orderly A keyOf ∧ m'.glance name keyOf i = m.glance name keyOf i := by
  intro rs
  induction rs with
  | nil =>
    intro p snapshots m m' hm _ _ h
    obtain ⟨-, rfl⟩ := completes_pure.1 h
    exact ⟨hm, rfl⟩
  | cons r rs ih =>
    intro p snapshots m m' hm hkeyed hi h
    rw [List.length_cons] at hi
    obtain ⟨snapshot, t, hbuild, h⟩ := completes_bind.1 h
    obtain ⟨u, t', hplace, h⟩ := completes_bind.1 h
    obtain ⟨rest, m'', hrest, h⟩ := completes_bind.1 h
    obtain ⟨-, rfl⟩ := completes_pure.1 h
    obtain ⟨s, latched, -, -, rfl⟩ := completes_build hbuild
    rw [show r.effectiveKey p = .text (keyOf p) from hkeyed 0 r rfl] at hplace
    obtain ⟨ht', hstore⟩ := orderly_place hA hplace (hm.congr rfl rfl)
    -- the first battery has a key of its own, which is another one
    have hfirst : t'.glance name keyOf i = m.glance name keyOf i := by
      rcases hstore with hstore | hset
      · rw [glance, hstore]
        rfl
      · exact Store.glance_setValue_of_ne hm.distinct (hinj.ne (by omega)) hset
    obtain ⟨hm', hrest'⟩ := ih ht' (fun k r' hr' => by
      rw [show p + 1 + k = p + (k + 1) by omega]
      exact hkeyed (k + 1) r' hr') (by omega) hrest
    exact ⟨hm', hrest'.trans hfirst⟩

/-- **An index steps aside** from one point of a run to another: it is known under the same key, and
nothing is heard of the key. -/
structure Aside (A : Store → Prop) (name : String) (keyOf : Nat → Text) (i : Nat)
    (m m' : Monitor τ) : Prop where
  orderly : m'.Orderly A keyOf
  readings : m'.readings = m.readings
  key : m'.keys.lookup i = m.keys.lookup i
  glance : m'.glance name keyOf i = m.glance name keyOf i

section Aside

variable (name) [Scheduler τ] {snapshots : List Snapshot} (hA : Store.Upheld A)
  (hinj : Function.Injective keyOf)

include hA hinj

theorem aside_pass {rs : List Reading} {p : Nat} (hm : m.Orderly A keyOf)
    (hkeyed : ∀ (k : Nat) (r : Reading), rs[k]? = some r →
      r.effectiveKey (p + k : Nat) = .text (keyOf (p + k)))
    (hi : i < p ∨ p + rs.length ≤ i) (h : Completes (pass p rs) m snapshots m') :
    Aside A name keyOf i m m' ∧ m'.state? i = m.state? i := by
  obtain ⟨hm', hglance⟩ := glance_pass hA hinj hm hkeyed hi h
  have hpassed := passed_pass hm.distinct h
  obtain ⟨hkey, hstate⟩ := hpassed.outside i hi
  exact ⟨⟨hm', hpassed.readings, hkey, hglance⟩, hstate⟩

theorem aside_served {r : Reading} {u t : Monitor τ} (hm : m.Orderly A keyOf)
    (hkeyed : Reading.Keyed keyOf m.readings) (hr : m.readings[i]? = some r)
    (h : Served m i r snapshot u t m') : Aside A name keyOf i m u ∧
      (t.Orderly A keyOf → Aside A name keyOf i t m' ∧ m'.state? i = t.state? i) := by
  obtain ⟨e, d, before, hestimated, hbefore, hu⟩ := h.before
  obtain ⟨after, hafter⟩ := h.after
  obtain ⟨hi, -⟩ := List.getElem?_eq_some_iff.1 hr
  have hstore : e.store = m.store := by rw [hestimated.eq]
  have he : e.Orderly A keyOf := hm.congr hstore (by rw [hestimated.eq])
  have htake : (m.readings.take i).length ≤ i := by rw [List.length_take]; omega
  obtain ⟨hd, -⟩ := aside_pass (i := i) name hA hinj he (fun k r' hr' => by
    rw [Nat.zero_add]
    exact hkeyed.take i k r' hr') (.inr (by omega)) hbefore
  refine ⟨?_, fun ht => ?_⟩
  · rw [hu]
    refine ⟨hd.orderly.congr rfl rfl, hd.readings.trans ?_, hd.key.trans ?_, hd.glance.trans ?_⟩
    · rw [hestimated.eq]
    · rw [hestimated.eq]
    · rw [glance, hstore]
      rfl
  · refine aside_pass name hA hinj ht (fun k r' hr' => ?_) (.inl (by omega)) hafter
    rw [List.getElem?_drop] at hr'
    exact hkeyed _ r' hr'

theorem aside_runBuilding (hm : m.Orderly A keyOf) (hkeyed : Reading.Keyed keyOf m.readings)
    (hi : m.readings.length ≤ i) (h : Completes runBuilding m snapshots m') :
    Aside A name keyOf i m m' ∧ m'.state? i = m.state? i := by
  obtain ⟨e, hestimated, hpass⟩ := completes_runBuilding h
  have hstore : e.store = m.store := by rw [hestimated.eq]
  have he : e.Orderly A keyOf := hm.congr hstore (by rw [hestimated.eq])
  obtain ⟨hm', -⟩ := aside_pass (i := i) name hA hinj he (fun k r hr => by
    rw [Nat.zero_add]
    exact hkeyed k r hr) (.inr (by omega)) hpass
  obtain ⟨hreadings, -, -, houtside⟩ := passed_runBuilding hm.distinct h
  obtain ⟨hkey, hstate⟩ := houtside i hi
  refine ⟨⟨hm'.orderly, hreadings, hkey, hm'.glance.trans ?_⟩, hstate⟩
  rw [glance, hstore]
  rfl

end Aside

/-! ### What is shown of an index -/

/-- What was last published for an index. -/
def published? (m : Monitor τ) (i : Nat) : Option Snapshot :=
  (m.state? i).bind (·.lastPublished)

/-- **What is shown of an index**: the record of the snapshot that was published last, under the key
of the index, or nothing at all. -/
def Shown (keyOf : Nat → Text) (i : Nat) (m : Monitor τ) : Option (Table Value) → Prop
  | none => m.keys.lookup i = none ∧ m.published? i = none
  | some record => m.keys.lookup i = some (.text (keyOf i)) ∧
    m.store.record? (.text (keyOf i)) = some (.object record) ∧
    ∃ snapshot, m.published? i = some snapshot ∧ snapshot.Exact ∧ snapshot.toRecord = record

theorem Shown.congr (h : m.Shown keyOf i last) (hkeys : m'.keys.lookup i = m.keys.lookup i)
    (hpublished : m'.published? i = m.published? i)
    (hrecord : m'.store.record? (.text (keyOf i)) = m.store.record? (.text (keyOf i))) :
    m'.Shown keyOf i last := by
  cases last with
  | none => exact ⟨hkeys.trans h.1, hpublished.trans h.2⟩
  | some record =>
    obtain ⟨snapshot, hsnapshot, hexact⟩ := h.2.2
    exact ⟨hkeys.trans h.1, hrecord.trans h.2.1, snapshot, hpublished.trans hsnapshot, hexact⟩

/-- What was heard of the key of an index, the last first. -/
abbrev told (name : String) (keyOf : Nat → Text) (i : Nat) (m : Monitor τ) :
    List (Option Value) :=
  m.store.heardOf name (.text (keyOf i))

/-- **The turn of the index itself.**  The record is written and heard of, unless it stands there
already. -/
theorem shown_place {s : BatteryState} (hm : m.Orderly (Store.Audible name) keyOf)
    (hs : m.state? i = some s) (hexact : snapshot.Exact) (hshown : m.Shown keyOf i last)
    (h : Completes (place i (.text (keyOf i)) snapshot) m () m') :
    m'.Orderly (Store.Audible name) keyOf ∧
      m'.Shown keyOf i (some snapshot.toRecord) ∧ m'.told name keyOf i =
        (if last = some snapshot.toRecord then [] else [some (.object snapshot.toRecord)]) ++
          m.told name keyOf i := by
  have hpublished : m.published? i = s.lastPublished := by rw [published?, hs]; rfl
  split
  -- the record is shown already, so that the snapshot is the one that was published last
  · rename_i hlast
    rw [hlast] at hshown
    obtain ⟨hkey, hrecord, old, hold, hexact', heq⟩ := hshown
    have hself : Completes (place i (.text (keyOf i)) snapshot) m () m :=
      completes_place_self hs hkey (Value.equal_text _) (hpublished.symm.trans hold)
        ((hexact'.same_iff hexact).2 heq)
    obtain rfl : m' = m := h.unique hself
    exact ⟨hm, ⟨hkey, hrecord, old, hold, hexact', heq⟩, rfl⟩
  · rename_i hlast
    obtain ⟨hm', -⟩ := orderly_place (Store.upheld_audible name) h hm
    have hplaced := placed_place h
    have hkey := hplaced.keys i
    rw [if_pos rfl] at hkey
    cases hplaced with
    | skipped s' old hs' hold hsame _ _ =>
      obtain rfl := Option.some.inj (hs.symm.trans hs')
      cases last with
      | none => cases (hpublished.symm.trans hshown.2).symm.trans hold
      | some record =>
        obtain ⟨-, -, old', hold', hexact', heq⟩ := hshown
        obtain rfl := Option.some.inj (hold'.symm.trans (hpublished.trans hold))
        exact absurd (by rw [← heq, (hexact'.same_iff hexact).1 hsame]) hlast
    | written s' between store hs' hvacated hset hstates heq =>
      obtain rfl := hm.store_eq_of_vacated hvacated
      have hstore : m'.store = store := by rw [heq]
      have hglance := Store.glance_setValue hm.distinct hm.audience hset
      rw [← hstore] at hglance
      refine ⟨hm', ⟨hkey, congrArg Prod.snd hglance, snapshot, ?_, hexact, rfl⟩,
        congrArg Prod.fst hglance⟩
      rw [published?, hstates, if_pos rfl]
      rfl

/-! ### Fitting the states to the list -/

/-- **What becomes of an index when others are dropped, or it is itself**: it stays as it is, or it
goes with its record, and that is told of. -/
inductive Fate (name : String) (base : List Subscriber) (keyOf : Nat → Text) (i : Nat)
    (m m' : Monitor τ) : Prop
  | stays (key : m'.keys.lookup i = m.keys.lookup i)
      (glance : m'.glance name keyOf i = m.glance name keyOf i)
  | goes (known : (m.keys.lookup i).isSome) (key : m'.keys.lookup i = none)
      (glance : m'.glance name keyOf i = Store.parted name base (m.glance name keyOf i))

theorem Fate.trans {m'' : Monitor τ} (h : Fate name base keyOf i m m')
    (h' : Fate name base keyOf i m' m'') : Fate name base keyOf i m m'' := by
  cases h with
  | stays hkey hglance =>
    cases h' with
    | stays hkey' hglance' => exact .stays (hkey'.trans hkey) (hglance'.trans hglance)
    | goes hknown hkey' hglance' => exact .goes (hkey ▸ hknown) hkey' (hglance ▸ hglance')
  | goes hknown hkey hglance =>
    cases h' with
    | stays hkey' hglance' => exact .goes hknown (hkey'.trans hkey) (hglance'.trans hglance)
    | goes hknown' _ _ =>
      rw [hkey] at hknown'
      cases hknown'

theorem fate_dropBattery (hinj : Function.Injective keyOf)
    (hm : m.Orderly (Store.Audience name base) keyOf) (h : Completes (dropBattery j) m () m') :
    Fate name base keyOf i m m' := by
  obtain ⟨-, hkeys, hstore⟩ := orderly_dropBattery (Store.upheld_audience name base) hm h
  rcases hstore with ⟨hnone, hstore⟩ | ⟨hknown, hremove⟩
  · refine .stays ?_ (by rw [glance, hstore]; rfl)
    rw [hkeys]
    split
    · rename_i hij
      rw [hij, hnone]
    · rfl
  · by_cases hij : i = j
    · subst hij
      exact .goes hknown (by rw [hkeys, if_pos rfl])
        (Store.glance_removeValue_eq hm.distinct hm.audience hremove)
    · exact .stays (by rw [hkeys, if_neg hij])
        (Store.glance_removeValue_of_ne hm.distinct (hinj.ne (Ne.symm hij)) hremove)

/-- Fitting the states to the list is to drop those beyond it, as far as keys and records go. -/
theorem syncStates_induction {Q : Monitor τ → Prop}
    (hdrop : ∀ {j t t'}, Q t → Completes (dropBattery j) t () t' → Q t')
    (hadd : ∀ {t t' : Monitor τ}, t'.store = t.store → t'.keys = t.keys → Q t → Q t')
    (hm : Q m) (h : Completes syncStates m () m') : Q m' := by
  simp only [syncStates, completes_get_bind] at h
  obtain ⟨u, d, hloop, h⟩ := completes_bind.1 h
  obtain ⟨u', d', hadded, h⟩ := completes_bind.1 h
  obtain ⟨-, rfl⟩ := completes_pure.1 h
  obtain ⟨heq, -⟩ := added_forIn hadded
  rw [heq]
  refine hadd (t := d) rfl rfl ?_
  refine completes_forIn (fun entry _ b r t t' hbody ht => ?_) hloop hm
  split at hbody
  · obtain ⟨u, v, hone, hbody⟩ := completes_bind.1 hbody
    obtain ⟨-, rfl⟩ := completes_pure.1 hbody
    exact hdrop ht hone
  · obtain ⟨-, rfl⟩ := completes_pure.1 hbody
    exact ht

theorem orderly_syncStates (hA : Store.Upheld A) (hm : m.Orderly A keyOf)
    (h : Completes syncStates m () m') : m'.Orderly A keyOf :=
  syncStates_induction (fun ht hone => (orderly_dropBattery hA ht hone).1)
    (fun hstore hkeys ht => ht.congr hstore hkeys) hm h

theorem fate_syncStates (hinj : Function.Injective keyOf)
    (hm : m.Orderly (Store.Audience name base) keyOf) (h : Completes syncStates m () m') :
    Fate name base keyOf i m m' := by
  refine (syncStates_induction
    (Q := fun t => t.Orderly (Store.Audience name base) keyOf ∧ Fate name base keyOf i m t)
    (fun ⟨ht, hfate⟩ hone => ?_) (fun hstore hkeys ⟨ht, hfate⟩ => ?_) ⟨hm, .stays rfl rfl⟩ h).2
  · exact ⟨(orderly_dropBattery (Store.upheld_audience name base) ht hone).1,
      hfate.trans (fate_dropBattery hinj ht hone)⟩
  · refine ⟨ht.congr hstore hkeys, hfate.trans (.stays (by rw [hkeys]) ?_)⟩
    rw [glance, hstore]
    rfl

/-- **An index of the list is shown as before, and any other has gone with its record**, if it had
one; `heard` is what was heard of it so far. -/
inductive Adjusted (name : String) (keyOf : Nat → Text) (i : Nat) (last : Option (Table Value))
    (heard : List (Option Value)) (m : Monitor τ) : Prop
  | stays (within : i < m.readings.length) (shown : m.Shown keyOf i last)
      (told : m.told name keyOf i = heard)
  | goes (beyond : ¬ i < m.readings.length) (shown : m.Shown keyOf i none)
      (told : m.told name keyOf i = (if last.isSome then [none] else []) ++ heard)

theorem Adjusted.withWatch {heard : List (Option Value)} (h : Adjusted name keyOf i last heard m)
    (watch : Watch τ) : Adjusted name keyOf i last heard { m with watch } := by
  cases h with
  | stays hi hshown htold => exact .stays hi (hshown.congr rfl rfl rfl) htold
  | goes hi hshown htold => exact .goes hi (hshown.congr rfl rfl rfl) htold

theorem adjusted_syncStates (hinj : Function.Injective keyOf)
    (hm : m.Orderly (Store.Audible name) keyOf)
    (hshown : m.Shown keyOf i last) (hstate : (m.state? i).isSome = last.isSome)
    (h : Completes syncStates m () m') :
    m'.Orderly (Store.Audible name) keyOf ∧
      Adjusted name keyOf i last (m.told name keyOf i) m' := by
  have hsynced := synced_syncStates hm.distinct h
  have hheard : m.Orderly (Store.Audience name m.store.subscribers) keyOf :=
    ⟨hm.distinct, hm.audience.audience, hm.named⟩
  have hfate := fate_syncStates (i := i) hinj hheard h
  refine ⟨orderly_syncStates (Store.upheld_audible name) hm h, ?_⟩
  have hlen : m'.readings.length = m.readings.length := by rw [hsynced.readings]
  by_cases hi : i < m.readings.length
  · have hkey := hsynced.lookup_keys hi
    have hpublished : m'.published? i = m.published? i := by
      rw [published?, published?, hsynced.state?, if_pos hi]
      cases m.state? i <;> rfl
    cases hfate with
    | stays _ hglance =>
      exact .stays (hlen ▸ hi) (hshown.congr hkey hpublished (congrArg Prod.snd hglance))
        (congrArg Prod.fst hglance)
    | goes hknown hgone _ =>
      rw [← hkey, hgone] at hknown
      cases hknown
  · have hpublished : m'.published? i = none := by
      rw [published?, hsynced.state?, if_neg hi]
      rfl
    have hkey := hsynced.keys i
    cases last with
    | none =>
      have hnone : m'.keys.lookup i = none := by rw [hkey, hshown.1, ite_self]
      cases hfate with
      | stays _ hglance =>
        exact .goes (hlen ▸ hi) ⟨hnone, hpublished⟩ (congrArg Prod.fst hglance)
      | goes hknown _ _ =>
        rw [hshown.1] at hknown
        cases hknown
    | some record =>
      have hnone : m'.keys.lookup i = none := by
        rw [hkey, if_pos (mem_beyond.2 ⟨Nat.le_of_not_lt hi, hstate⟩)]
      cases hfate with
      | stays hstays _ => cases (hnone.symm.trans hstays).trans hshown.1
      | goes _ _ hglance =>
        have hparted : m'.glance name keyOf i = (none :: m.told name keyOf i, none) := by
          rw [hglance, glance, Store.glance, hshown.2.1, Store.parted, hm.audience.once]
          · rfl
          · intro hnull
            cases hnull
        exact .goes (hlen ▸ hi) ⟨hnone, hpublished⟩ (congrArg Prod.fst hparted)

/-! ### Runs -/

section Runs

variable [Scheduler τ]

/-- **A run builds a record for every battery of the list**, and it is heard of under the key of the
battery if it is another one than before. -/
theorem shown_runBuilding {snapshots : List Snapshot} {r : Reading}
    (hinj : Function.Injective keyOf) (hm : m.Orderly (Store.Audible name) keyOf)
    (hkeyed : Reading.Keyed keyOf m.readings) (hr : m.readings[i]? = some r)
    (htyped : r.isWellTyped = true) (htrust : m.watch.conditions.useFirmware.isKind .bool = true)
    (hshown : m.Shown keyOf i last) (h : Completes runBuilding m snapshots m') :
    m'.Orderly (Store.Audible name) keyOf ∧ ∃ snapshot, snapshots[i]? = some snapshot ∧
      m'.Shown keyOf i (some snapshot.toRecord) ∧ m'.told name keyOf i =
        (if last = some snapshot.toRecord then [] else [some (.object snapshot.toRecord)]) ++
          m.told name keyOf i := by
  obtain ⟨snapshot, u, t, hsnapshot, hserved⟩ := served_runBuilding hm.distinct hr h
  obtain ⟨s, minutes, latched, hs, -, hreport, hs'⟩ := hserved.report
  have hA := Store.upheld_audible name
  obtain ⟨hu, hafter⟩ := aside_served name hA hinj hm hkeyed hr hserved
  have hplace := hserved.place
  rw [hkeyed i r hr] at hplace
  have hpublished : u.published? i = m.published? i := by
    rw [published?, published?, hs, hs']
    rfl
  obtain ⟨ht, hshown', htold⟩ := shown_place hu.orderly hs'
    (Reading.exact_report htyped rfl htrust hreport)
    (hshown.congr hu.key hpublished (congrArg Prod.snd hu.glance)) hplace
  obtain ⟨hm', hstate⟩ := hafter ht
  have htold' : u.told name keyOf i = m.told name keyOf i := congrArg Prod.fst hu.glance
  refine ⟨hm'.orderly, snapshot, hsnapshot, hshown'.congr hm'.key
    (by rw [published?, hstate]; rfl) (congrArg Prod.snd hm'.glance), ?_⟩
  rw [← htold', ← htold]
  exact congrArg Prod.fst hm'.glance

theorem shown_runBuilding_beyond {snapshots : List Snapshot} (hinj : Function.Injective keyOf)
    (hm : m.Orderly (Store.Audible name) keyOf) (hkeyed : Reading.Keyed keyOf m.readings)
    (hi : m.readings.length ≤ i) (hshown : m.Shown keyOf i last)
    (h : Completes runBuilding m snapshots m') : m'.Orderly (Store.Audible name) keyOf ∧
      m'.Shown keyOf i last ∧ m'.told name keyOf i = m.told name keyOf i := by
  obtain ⟨hm', hstate⟩ :=
    aside_runBuilding name (Store.upheld_audible name) hinj hm hkeyed hi h
  exact ⟨hm'.orderly, hshown.congr hm'.key (by rw [published?, hstate]; rfl)
    (congrArg Prod.snd hm'.glance), congrArg Prod.fst hm'.glance⟩

/-! ### Events -/

/-- The record that an event builds for an index, if it builds one. -/
def Event.builds (e : Event τ) (m : Monitor τ) (i : Nat) : Option (Table Value) :=
  match (e.observe.run.run m).1 with
  | .ok (some snapshots) => snapshots[i]?.map Snapshot.toRecord
  | _ => none

theorem Event.builds_eq {e : Event τ} {o : Option (List Snapshot)}
    (h : Completes e.observe m o m') :
    e.builds m i = o.bind fun snapshots => snapshots[i]?.map Snapshot.toRecord := by
  rw [builds, show e.observe.run.run m = (.ok o, m') from h]
  cases o <;> rfl

/-- What an event does to what is shown of an index, and what is heard of the key of the index, if
the event builds the record for it, or none. -/
def Follows (name : String) (keyOf : Nat → Text) (i : Nat) (last : Option (Table Value))
    (m : Monitor τ) (record : Option (Table Value)) (m' : Monitor τ) : Prop :=
  ∃ last' news, Heard last (i < m'.readings.length) record last' news ∧ m'.Shown keyOf i last' ∧
    (last'.isSome ↔ i < m'.readings.length) ∧ m'.told name keyOf i = news ++ m.told name keyOf i

omit [Scheduler τ] in
theorem Adjusted.follows_rested (h : Adjusted name keyOf i last (m.told name keyOf i) m')
    (hlast : i < m'.readings.length → last.isSome) : Follows name keyOf i last m none m' := by
  cases h with
  | stays hi hshown htold =>
    refine ⟨last, [], ?_, hshown, iff_of_true (hlast hi) hi, htold⟩
    rw [decide_eq_true hi]
    exact .idle (hlast hi)
  | goes hi hshown htold =>
    refine ⟨none, _, ?_, hshown, iff_of_false Bool.false_ne_true hi, htold⟩
    rw [decide_eq_false hi]
    exact .away

theorem Adjusted.follows_ran {t : Monitor τ} {snapshots : List Snapshot}
    (hinj : Function.Injective keyOf) (h : Adjusted name keyOf i last (m.told name keyOf i) t)
    (ht : t.Orderly (Store.Audible name) keyOf) (hkeyed : Reading.Keyed keyOf t.readings)
    (htyped : ∀ r ∈ t.readings, r.isWellTyped = true)
    (htrust : t.watch.conditions.useFirmware.isKind .bool = true)
    (hrun : Completes runBuilding t snapshots m') : m'.Orderly (Store.Audible name) keyOf ∧
      Follows name keyOf i last m (snapshots[i]?.map Snapshot.toRecord) m' := by
  have hlen : m'.readings.length = t.readings.length := by
    rw [(passed_runBuilding ht.distinct hrun).1]
  unfold Follows
  rw [hlen]
  cases h with
  | stays hi hshown htold =>
    have hr : t.readings[i]? = some t.readings[i] := List.getElem?_eq_getElem hi
    obtain ⟨hm', snapshot, hsnapshot, hshown', htold'⟩ := shown_runBuilding hinj ht hkeyed hr
      (htyped _ (List.mem_of_getElem? hr)) htrust hshown hrun
    refine ⟨hm', some snapshot.toRecord, _, ?_, hshown', iff_of_true rfl hi,
      htold'.trans (congrArg _ htold)⟩
    rw [decide_eq_true hi, hsnapshot]
    exact .built
  | goes hi hshown htold =>
    obtain ⟨hm', hshown', htold'⟩ :=
      shown_runBuilding_beyond hinj ht hkeyed (Nat.le_of_not_lt hi) hshown hrun
    refine ⟨hm', none, _, ?_, hshown', iff_of_false Bool.false_ne_true hi, htold'.trans htold⟩
    rw [decide_eq_false hi]
    exact .away

/-- Besides, the watch follows the list, and that gives every index its own key. -/
structure Homed (name : String) (keyOf : Nat → Text) (m : Monitor τ) : Prop
    extends m.Orderly (Store.Audible name) keyOf where
  following : m.Following
  keyed : Reading.Keyed keyOf m.readings

/-- **An event is heard of as the stretches have it.** -/
theorem follows_observe {e : Event τ} {o : Option (List Snapshot)}
    (hinj : Function.Injective keyOf) (hm : m.Homed name keyOf) (hshown : m.Shown keyOf i last)
    (hlast : last.isSome ↔ i < m.readings.length)
    (hlist : ∀ rs ∈ e.brought, Reading.Keyed keyOf rs ∧ ∀ r ∈ rs, r.isWellTyped = true)
    (h : Completes e.observe m o m') :
    m'.Homed name keyOf ∧ Follows name keyOf i last m (e.builds m i) m' := by
  obtain ⟨hswept, hreadings⟩ := swept_observe hm.following.fitted hm.following.distinct h
  obtain ⟨hfollowing, -⟩ := following_observe hm.following (fun rs hrs => (hlist rs hrs).2) h
  have hkeyed : Reading.Keyed keyOf m'.readings :=
    hreadings ▸ holds_getD hm.keyed fun rs hrs => (hlist rs hrs).1
  have hstate : (m.state? i).isSome = last.isSome :=
    Bool.eq_iff_iff.2 ((hm.following.fitted i).trans hlast.symm)
  have hadjusted {t : Monitor τ} (watch : Watch τ)
      (sweep : Completes syncStates { m with readings := t.readings } () t) :
      ({ t with watch } : Monitor τ).Orderly (Store.Audible name) keyOf ∧
        Adjusted name keyOf i last (m.told name keyOf i) { t with watch } := by
    obtain ⟨ht, hfit⟩ := adjusted_syncStates (m := { m with readings := t.readings }) hinj
      (hm.toOrderly.congr rfl rfl) (hshown.congr rfl rfl rfl) hstate sweep
    exact ⟨ht.congr rfl rfl, hfit.withWatch watch⟩
  rw [Event.builds_eq h]
  cases hswept with
  | @rested t sweep watch why =>
    obtain ⟨ht, hfit⟩ := hadjusted watch sweep
    refine ⟨⟨ht, hfollowing, hkeyed⟩, hfit.follows_rested fun hi => ?_⟩
    -- where nothing is run for a list that is not empty, the list is the old one
    rcases why with hempty | hsame
    · rw [show ({ t with watch } : Monitor τ).readings = [] from hempty] at hi
      cases hi
    · exact hlast.2 (hsame ▸ hi)
  | @ran t _ snapshots sweep watch run =>
    obtain ⟨ht, hfit⟩ := hadjusted watch sweep
    have htyped := hfollowing.typed
    have htrust := hfollowing.trust
    have hkeyed' := hkeyed
    rw [watch_runBuilding ht.distinct run] at htrust
    rw [(passed_runBuilding ht.distinct run).1] at htyped hkeyed'
    obtain ⟨hm', hfollows⟩ := hfit.follows_ran hinj ht hkeyed' htyped htrust run
    exact ⟨⟨hm', hfollowing, hkeyed⟩, hfollows⟩

/-- The stretches of a history during which an index is in the list, the last one first. -/
def stretches (start : Monitor τ) (i : Nat) : List (Event τ) → List Stretch
  | [] => []
  | e :: past => Stretch.follow (i < (afterAll Event.act start (e :: past)).readings.length)
    (e.builds (afterAll Event.act start past) i) (stretches start i past)

/-- **What a listener hears of the key of a battery is the history of its records**, with equal ones
in a row heard of once.  Every index has a key of its own, a listener hears of a store that nobody
else removes records from, and a history without faults brings lists of well-typed readings.  Then
what the listener hears of the key of an index are the notices of the stretches during which the
index is in the list, one after the other: the records that were built in the stretch with equal
ones in a row collapsed to one, and at its end, once, that the key was removed. -/
theorem heardOf_afterAll {start : Monitor τ} {past : List (Event τ)} (hinitial : start.Initial)
    (haudible : start.store.Audible name) (hinj : Function.Injective keyOf)
    (hfaultless : faultless Event.act start past)
    (hlists : ∀ e ∈ past, ∀ rs ∈ e.brought,
      Reading.Keyed keyOf rs ∧ ∀ r ∈ rs, r.isWellTyped = true) (i : Nat) :
    (afterAll Event.act start past).store.heardOf name (.text (keyOf i)) =
      (stretches start i past).flatMap Stretch.notices ++
        start.store.heardOf name (.text (keyOf i)) := by
  -- the invariant: what is shown of the index is the record at the end of the stretches
  suffices hinvariant : (afterAll Event.act start past).Homed name keyOf ∧ ∃ last,
      (afterAll Event.act start past).Shown keyOf i last ∧
      (last.isSome ↔ i < (afterAll Event.act start past).readings.length) ∧
      Stretch.Ends (stretches start i past) last ∧
      (afterAll Event.act start past).told name keyOf i =
        (stretches start i past).flatMap Stretch.notices ++ start.told name keyOf i by
    obtain ⟨-, last, -, -, -, htold⟩ := hinvariant
    exact htold
  induction past with
  | nil =>
    have hkeys (j : Nat) : start.keys.lookup j = none := by
      rw [hinitial.keys]
      rfl
    have hshown : start.Shown keyOf i none :=
      ⟨hkeys i, by rw [published?, hinitial.state? i]; rfl⟩
    have hout : ¬ i < start.readings.length := by
      rw [hinitial.readings]
      exact Nat.not_lt_zero i
    refine ⟨⟨⟨hinitial.distinct, haudible, fun j key hkey => ?_⟩, hinitial.following,
      fun j r hr => ?_⟩, none, hshown, iff_of_false Bool.false_ne_true hout, .ended nofun, rfl⟩
    · cases (hkeys j).symm.trans hkey
    · rw [show (afterAll Event.act start []).readings = [] from hinitial.readings] at hr
      cases hr
  | cons e past ih =>
    obtain ⟨hfaultless', u, hact⟩ := faultless_cons.1 hfaultless
    rw [Event.act_eq, completes_discard] at hact
    obtain ⟨o, hact⟩ := hact
    obtain ⟨hhomed, last, hshown, hlast, hends, htold⟩ :=
      ih hfaultless' fun e' he' => hlists e' (List.mem_cons_of_mem _ he')
    obtain ⟨hhomed', last', news, hheard, hshown', hlast', htold'⟩ :=
      follows_observe hinj hhomed hshown hlast (hlists e List.mem_cons_self) hact
    obtain ⟨hends', hnews⟩ := hheard.follow hends
    refine ⟨hhomed', last', hshown', hlast', hends', ?_⟩
    rw [htold', htold, ← List.append_assoc, ← hnews]
    rfl

end Runs

/-- A battery without a key of its own is looked at twice before its charge changes, and then goes
and comes back as it was: two records are heard of, that the key was removed, and the second record
once more. -/
theorem heardOf_afterAll_comesBack :
    let start : Monitor Bench :=
      { watch := { timers := {} }, store := { subscribers := [{ name := "listener" }] } }
    let charged (n : Int) : Event Bench :=
      .request (.batteriesChanged [{ currentCapacity := .int n, maxCapacity := .int 100 }])
    let past := [charged 40, .request (.batteriesChanged []), charged 40, .request .refresh,
      charged 50]
    (afterAll Event.act start past).store.heardOf "listener" (.text (Reading.defaultName 0)) =
      (stretches start 0 past).flatMap Stretch.notices ∧
    ((stretches start 0 past).flatMap Stretch.notices).map (·.isSome) =
      [true, false, true, true] := by
  intro start charged past
  have hinitial : start.Initial := ⟨⟨rfl, rfl, rfl, .nil⟩, rfl, rfl⟩
  have hquiet : ∀ subscriber ∈ start.store.subscribers, subscriber.reaction ≠ .remove := by decide
  have haudible : start.store.Audible "listener" := ⟨by decide, by decide, hquiet⟩
  have hlists : ∀ e ∈ past, ∀ rs ∈ e.brought,
      Reading.Keyed Reading.defaultName rs ∧ ∀ r ∈ rs, r.isWellTyped = true := by
    have hkeyless : ∀ e ∈ past, ∀ rs ∈ e.brought,
        (∀ r ∈ rs, r.storeKey.truth = false) ∧ ∀ r ∈ rs, r.isWellTyped = true := by
      decide +kernel
    exact fun e he rs hrs =>
      (hkeyless e he rs hrs).imp_left fun hkey => Reading.keyed_defaultName hkey
  have h := heardOf_afterAll hinitial haudible Reading.defaultName_injective
    (by decide +kernel) hlists 0
  exact ⟨h.trans (List.append_nil _), by decide +kernel⟩

end Monitor

end BatteryMonitor
