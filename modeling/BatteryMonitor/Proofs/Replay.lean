import BatteryMonitor.Proofs.Mirror

/-!
# A copy of the store that is made of the news

A subscriber who knows what a store was loaded with may replay what it hears on a copy of that table: a
record that was set is set, and a key that was removed is deleted (`Store.replay`).  Whether the copy
goes with the store is a matter of what a call does to the records, and of what the subscriber is told
of it.

* `Store.sees_removeValue`, `Store.sees_setValue` : what a call does to both, whatever the other
  subscribers and the disk do meanwhile, and also if it stops with a fault.
* `Store.Copies.drop`, `Store.Copies.put` : so all that the copy misses is that a null was removed,
  since removing is told of only where there is something else than null.
* `Store.shows_replay_iff` : after every history of calls the copy shows what the store shows, unless a
  key that was loaded as null has been removed and was never set (`Store.shows_replay_null`).
-/

namespace BatteryMonitor

/-! ### Tables whose keys are texts -/

namespace Table

variable {t u : Table Value} {k : Key}

theorem Named.erase (h : t.Named) (k : Key) : (t.erase k).Named :=
  ⟨h.distinct.erase k, fun q hq => h.text q (mem_of_mem_erase hq)⟩

theorem Named.insert (h : t.Named) (name : Text) (v : Value) : (t.insert (.text name) v).Named := by
  refine ⟨h.distinct.insert _ v, fun q hq => ?_⟩
  exact (forall_insert (T := (·.isText = true)) (Q := fun _ : Value => True)
    (fun q hq => ⟨h.text q hq, trivial⟩) rfl trivial q hq).1

theorem erase_of_find?_eq_none (h : t.find? k = none) : t.erase k = t := by
  induction t with
  | nil => rfl
  | cons p t ih =>
    obtain ⟨l, a⟩ := p
    rw [find?] at h
    split at h
    · cases h
    · rename_i hne
      rw [Table.erase, if_neg hne, ih h]

theorem Named.find?_eq_none (h : t.Named) (hk : k.isText = false) : t.find? k = none := by
  rw [find?_eq_none_iff]
  intro hmem
  obtain ⟨q, hq, hentry⟩ := List.mem_map.1 hmem
  obtain ⟨name, hname⟩ := Key.exists_text (h.text q hq)
  rw [hname] at hentry
  rw [Key.eq_text_of_entry hentry.symm] at hk
  cases hk

theorem Named.mem_keys_iff (h : t.Named) : k ∈ t.keys ↔ (t.find? k).isSome ∧ k.isText := by
  constructor
  · intro hmem
    obtain ⟨q, hq, rfl⟩ := List.mem_map.1 hmem
    exact ⟨by rw [find?_of_mem h.distinct hq]; rfl, h.text q hq⟩
  · rintro ⟨hsome, htext⟩
    obtain ⟨v, hv⟩ := Option.isSome_iff_exists.1 hsome
    obtain ⟨l, hl, hmem⟩ := (find?_eq_some_iff h.distinct).1 hv
    obtain ⟨name, rfl⟩ := Key.exists_text htext
    rw [Key.eq_text_of_entry hl] at hmem
    exact List.mem_map.2 ⟨_, hmem, rfl⟩

theorem find?_insert_text (t : Table Value) (key name : Text) (v : Value) :
    (t.insert (.text key) v).find? (.text name) =
      if key = name then some v else t.find? (.text name) := by
  simp only [find?_insert, Key.entry, Entry.text.injEq]

theorem find?_erase_text (h : t.Distinct) (key name : Text) :
    (t.erase (.text key)).find? (.text name) = if key = name then none else t.find? (.text name) := by
  simp only [find?_erase h, Key.entry, Entry.text.injEq]

theorem Named.keys_perm (ht : t.Named) (hu : u.Named)
    (h : ∀ name, t.find? (.text name) = u.find? (.text name)) : t.keys.Perm u.keys := by
  have hnodup {w : Table Value} (hw : w.Named) : w.keys.Nodup := by
    refine List.Nodup.of_map Key.entry ?_
    rw [keys, List.map_map]
    exact hw.distinct
  refine (List.perm_ext_iff_of_nodup (hnodup ht) (hnodup hu)).2 fun k => ?_
  rw [ht.mem_keys_iff, hu.mem_keys_iff]
  refine and_congr_left fun htext => ?_
  obtain ⟨name, rfl⟩ := Key.exists_text htext
  rw [h]

end Table

namespace Store

open Effect

variable {s : Store} {name : String} {values loaded : Table Value} {past : List Call}

/-! ### News -/

/-- News of a key: the record that was set, or that it was removed. -/
abbrev News := Key × Option Value

variable {news : List News} {k : Key}

/-- What a subscriber has heard, in order. -/
def newsOf (name : String) (s : Store) : List News :=
  (s.heard.filter (·.subscriber = name)).map fun n => (n.key, n.record)

/-- A table that follows the news. -/
def heed (t : Table Value) : News → Table Value
  | (k, some record) => t.insert k record
  | (k, none) => t.erase k

/-- A table that follows all of the news, one after the other. -/
def replay (t : Table Value) (news : List News) : Table Value := news.foldl heed t

/-- The store shows what the table holds: it finds the same under every key, and has the same keys. -/
structure Shows (s : Store) (t : Table Value) : Prop where
  getValue : ∀ key default, s.getValue key default = ({ values := t } : Store).getValue key default
  keys : s.keys.Perm t.keys

theorem newsOf_told (n : Notification) : (s.told n).newsOf name =
    s.newsOf name ++ if n.subscriber = name then [(n.key, n.record)] else [] := by
  unfold newsOf told
  rw [List.filter_append, List.map_append]
  congr 1
  by_cases hn : n.subscriber = name <;> simp [hn]

/-- A subscriber attends: it is the only one of its name, and whoever is told before it lets the
telling go on and leaves the records alone. -/
structure Attended (name : String) (s : Store) : Prop where
  placed : ∃ earlier x later, s.subscribers = earlier ++ x :: later ∧ x.name = name ∧
    (∀ y ∈ earlier, y.name ≠ name ∧ (y.reaction = .listen ∨ y.reaction = .recruit)) ∧
    ∀ y ∈ later, y.name ≠ name
  alone : ∀ y ∈ s.subscribers, y.reaction = .recruit → y.name ++ "+" ≠ name

theorem Attended.subscribe (h : s.Attended name) {recruit : String} (hname : recruit ≠ name) :
    (s.subscribe { name := recruit }).Attended name := by
  obtain ⟨earlier, x, later, hsplit, hx, hearlier, hlater⟩ := h.placed
  refine ⟨⟨earlier, x, later ++ [{ name := recruit }], ?_, hx, hearlier, fun y hy => ?_⟩,
    fun y hy hrecruit => ?_⟩
  · simp [Store.subscribe, hsplit]
  · rcases List.mem_append.1 hy with hy | hy
    · exact hlater y hy
    · rw [List.mem_singleton.1 hy]
      exact hname
  -- a recruit only listens
  · rcases List.mem_append.1 hy with hy | hy
    · exact h.alone y hy hrecruit
    · rw [List.mem_singleton.1 hy] at hrecruit
      cases hrecruit

/-! ### What a call does to the records and to the news -/

/-- The records in the store, and the news that one who attends has of them. -/
structure Sees (name : String) (values : Table Value) (news : List News) (s : Store) : Prop where
  attended : s.Attended name
  values : s.values = values
  news : s.newsOf name = news

theorem Sees.told (h : s.Sees name values news) (n : Notification) : (s.told n).Sees name values
    (news ++ if n.subscriber = name then [(n.key, n.record)] else []) :=
  ⟨⟨h.attended.placed, h.attended.alone⟩, h.values, by rw [newsOf_told, h.news]⟩

/-- A property that does not change with the disk, with what others are told and with who else
subscribes. -/
structure Aside (name : String) (Q : Store → Prop) : Prop where
  save : Keeps Q save
  told : ∀ s n, n.subscriber ≠ name → Q s → Q (s.told n)
  join : ∀ s recruit, recruit ≠ name → Q s → Q (s.subscribe { name := recruit })

theorem aside_sees (name : String) (values : Table Value) (news : List News) :
    Aside name (Sees name values news) where
  save := keeps_save fun _ _ hs => ⟨⟨hs.attended.placed, hs.attended.alone⟩, hs.values, hs.news⟩
  told s n hn hs := by
    have htold := hs.told n
    rwa [if_neg hn, List.append_nil] at htold
  join s recruit hname hs := ⟨hs.attended.subscribe hname, hs.values, hs.news⟩

theorem Aside.or {P Q : Store → Prop} (hP : Aside name P) (hQ : Aside name Q) :
    Aside name fun s => P s ∨ Q s where
  save s hs := hs.imp (hP.save s) (hQ.save s)
  told s n hn hs := hs.imp (hP.told s n hn) (hQ.told s n hn)
  join s recruit hname hs := hs.imp (hP.join s recruit hname) (hQ.join s recruit hname)

/-- **One who attends is told**, also if the telling stops with a fault: those before it let it go on,
and those behind it are too late to stop it. -/
theorem after_tell {Q : Store → Prop} {o : Option Value}
    {next : Subscriber → M (ForInStep PUnit)} (hQ : Aside name Q)
    (hnext : ∀ y, Keeps Q (next y))
    (hcalm : ∀ y, y.reaction ≠ .remove → next y = pure (.yield ⟨⟩))
    (hheard : ∀ t, t.Sees name values (news ++ [(k, o)]) → Q t) (hs : s.Sees name values news) :
    Q (after (forIn s.subscribers PUnit.unit fun y _ => do
      hear y k o
      react y
      next y) s) := by
  have hP := aside_sees name values news
  obtain ⟨earlier, x, later, hsplit, hx, hearlier, hlater⟩ := hs.attended.placed
  have halone := hs.attended.alone
  rw [hsplit] at halone ⊢
  have hreact (y : Subscriber) (hy : y ∈ earlier ++ x :: later) : Keeps Q (do react y; next y) :=
    keeps_bind (keeps_react fun hrecruit t ht => hQ.join t _ (halone y hy hrecruit) ht)
      fun _ => hnext y
  refine after_forIn_append (P := Sees name values news) (fun y hy t ht => ?_) (fun t ht => ?_)
    (fun y hy => ?_) hs
  · obtain ⟨hname, hreaction⟩ := hearlier y hy
    have htold := hP.told t ⟨y.name, k, o⟩ hname ht
    rcases hreaction with hreaction | hreaction
    · refine ⟨_, completes_modify_bind.2 ?_, htold⟩
      rw [react, hreaction, hcalm y (by rw [hreaction]; exact nofun)]
      exact completes_pure.2 ⟨rfl, rfl⟩
    · refine ⟨_, completes_modify_bind.2 ?_, hP.join _ (y.name ++ "+")
        (halone y (List.mem_append_left _ hy) hreaction) htold⟩
      rw [react, hreaction, hcalm y (by rw [hreaction]; exact nofun)]
      exact completes_modify_bind.2 (completes_pure.2 ⟨rfl, rfl⟩)
  · have htold := ht.told ⟨x.name, k, o⟩
    rw [if_pos hx] at htold
    exact hreact x (List.mem_append_right _ List.mem_cons_self) _ (hheard _ htold)
  · refine keeps_bind (keeps_modify fun t ht => hQ.told t _ (hlater y hy) ht) fun _ => ?_
    exact hreact y (List.mem_append_right _ (List.mem_cons_of_mem _ hy))

/-- What is told of a key that is removed: nothing, if there is nothing or null. -/
def farewell (t : Table Value) (k : Key) : List News :=
  match t.find? k with
  | none | some .null => []
  | some _ => [(k, none)]

theorem farewell_of_none (h : values.find? k = none) : farewell values k = [] := by
  rw [farewell, h]

theorem farewell_of_null (h : values.find? k = some .null) : farewell values k = [] := by
  rw [farewell, h]

theorem farewell_of_some {v : Value} (h : values.find? k = some v) (hv : v ≠ .null) :
    farewell values k = [(k, none)] := by
  rw [farewell, h]
  cases v <;> first | rfl | exact absurd rfl hv

/-- **Removing erases the record**, and one who attends hears of it if there was one that is not
null. -/
theorem sees_removeValue (hs : s.Sees name values news) (key : Text) :
    (after (removeValue (.text key)) s).Sees name (values.erase (.text key))
      (news ++ farewell values (.text key)) := by
  have haside := aside_sees name (values.erase (.text key))
  obtain ⟨hattended, rfl, rfl⟩ := hs
  -- the table changes before anyone is told
  have herased : Sees name (s.values.erase (.text key)) (s.newsOf name)
      { s with values := s.values.erase (.text key) } :=
    ⟨⟨hattended.placed, hattended.alone⟩, rfl, rfl⟩
  unfold removeValue
  rw [after_get_bind]
  by_cases hempty : s.values.isEmpty
  · have hnil := List.isEmpty_iff.1 hempty
    have hquiet : farewell s.values (.text key) = [] := by rw [hnil]; rfl
    rw [if_pos hempty, hquiet, List.append_nil]
    refine (haside _).save s ⟨hattended, ?_, rfl⟩
    rw [hnil]
    rfl
  · rw [if_neg hempty]
    simp only [Value.key, Value.key?]
    rw [after_set_bind]
    split
    · rename_i hnone
      rw [farewell_of_none hnone, List.append_nil]
      exact (haside _).save _ herased
    · rename_i hnull
      rw [farewell_of_null hnull, List.append_nil]
      exact (haside _).save _ herased
    · rename_i hnull hsome
      rw [farewell_of_some hsome hnull]
      refine after_bind_of_keeps ?_ fun _ => (haside _).save
      rw [announceRemoval, after_get_bind]
      refine after_bind_of_keeps ?_ fun _ => keeps_pure _
      exact after_tell (haside _) (fun _ => keeps_pure _) (fun _ _ => rfl) (fun _ ht => ht) herased

/-- **Setting puts the record in the table**, and one who attends hears of it.  A subscriber behind it
may remove the record again, and then it hears of that too. -/
theorem sees_setValue (hd : values.Distinct) (hs : s.Sees name values news) (key : Text)
    (record : Table Value) :
    let news' := news ++ [(.text key, some (.object record))]
    let values' := values.insert (.text key) (.object record)
    let s' := after (setValue (.text key) (.object record)) s
    s'.Sees name values' news' ∨
      s'.Sees name (values'.erase (.text key)) (news' ++ [(.text key, none)]) := by
  intro news' values' s'
  obtain ⟨hattended, rfl, rfl⟩ := hs
  have hfind : values'.find? (.text key) = some (.object record) := by
    rw [Table.find?_insert, if_pos rfl]
  have herased : (values'.erase (.text key)).find? (.text key) = none := by
    rw [Table.find?_erase (hd.insert _ _), if_pos rfl]
  let Q (t : Store) : Prop := t.Sees name values' news' ∨
    t.Sees name (values'.erase (.text key)) (news' ++ [(.text key, none)])
  have hQ : Aside name Q := (aside_sees name values' news').or
    (aside_sees name (values'.erase (.text key)) (news' ++ [(.text key, none)]))
  -- removed once more, the record is removed or stays so
  have hremove : Keeps Q (removeValue (.text key)) := by
    rintro t (ht | ht)
    · have hgone := sees_removeValue ht key
      rw [farewell_of_some hfind nofun] at hgone
      exact .inr hgone
    · have hgone := sees_removeValue ht key
      rw [farewell_of_none herased, Table.erase_of_find?_eq_none herased, List.append_nil] at hgone
      exact .inr hgone
  have hset : setValue (.text key) (.object record) = (do
      modify fun s => { s with values := s.values.insert (.text key) (.object record) }
      announce (.text key) (.object record)
      save) := rfl
  change Q (after (setValue (.text key) (.object record)) s)
  rw [hset, after_modify_bind]
  refine after_bind_of_keeps ?_ fun _ => hQ.save
  rw [announce, after_get_bind]
  refine after_bind_of_keeps ?_ fun _ => keeps_pure _
  refine after_tell hQ (fun y => ?_) (fun y hy => if_neg hy) (fun t ht => .inl ht)
    ⟨⟨hattended.placed, hattended.alone⟩, rfl, rfl⟩
  exact keeps_ite (keeps_bind hremove fun _ => keeps_pure _) (keeps_pure _)

/-! ### What a history of calls does -/

/-- The key that a call is about. -/
def Call.key : Call → Text
  | put key _ => key
  | drop key => key

/-- Nobody was told that the key is gone: it was loaded as null, it was dropped, and it was never
put. -/
structure Untold (loaded : Table Value) (past : List Call) (key : Text) : Prop where
  null : loaded.find? (.text key) = some .null
  dropped : .drop key ∈ past
  unput : ∀ record, .put key record ∉ past

/-- What a copy finds under a key, and what the store does. -/
structure Tallies (loaded : Table Value) (past : List Call) (key : Text)
    (copied stored : Option Value) : Prop where
  told : ¬ Untold loaded past key → copied = stored
  untold : Untold loaded past key → copied = some .null ∧ stored = none
  /-- only a null that was loaded and left alone is there -/
  null : stored = some .null ↔
    loaded.find? (.text key) = some .null ∧ ∀ c ∈ past, c.key ≠ key

section Tallies

variable {key : Text} {copied stored : Option Value}

theorem tallies_nil (loaded : Table Value) (key : Text) :
    Tallies loaded [] key (loaded.find? (.text key)) (loaded.find? (.text key)) where
  told _ := rfl
  untold h := absurd h.dropped List.not_mem_nil
  null := by simp

theorem Tallies.other (h : Tallies loaded past key copied stored) {c : Call} (hc : c.key ≠ key) :
    Tallies loaded (c :: past) key copied stored := by
  have hmem {c' : Call} (hc' : c'.key = key) : c' ∈ c :: past ↔ c' ∈ past := by
    rw [List.mem_cons, or_iff_right]
    rintro rfl
    exact hc hc'
  have huntold : Untold loaded (c :: past) key ↔ Untold loaded past key := by
    constructor
    · rintro ⟨hnull, hdropped, hunput⟩
      exact ⟨hnull, (hmem rfl).1 hdropped, fun record hput => hunput record ((hmem rfl).2 hput)⟩
    · rintro ⟨hnull, hdropped, hunput⟩
      exact ⟨hnull, (hmem rfl).2 hdropped, fun record hput => hunput record ((hmem rfl).1 hput)⟩
  refine ⟨fun ht => h.told (mt huntold.2 ht), fun ht => h.untold (huntold.1 ht), ?_⟩
  rw [h.null, List.forall_mem_cons]
  exact and_congr_right fun _ => (and_iff_right hc).symm

theorem Tallies.put {record : Table Value} (hput : .put key record ∈ past)
    (hstored : stored ≠ some .null) : Tallies loaded past key stored stored where
  told _ := rfl
  untold h := absurd hput (h.unput record)
  null := iff_of_false hstored fun h => h.2 _ hput rfl

/-- **What is dropped is gone from the copy too**, if it was not null. -/
theorem Tallies.drop (h : Tallies loaded past key copied stored) :
    Tallies loaded (.drop key :: past) key
      (if stored = none ∨ stored = some .null then copied else none) none := by
  have hdropped : Call.drop key ∈ Call.drop key :: past := List.mem_cons_self
  have hput {record : Table Value} :
      Call.put key record ∈ Call.drop key :: past ↔ Call.put key record ∈ past := by simp
  refine ⟨fun htold => ?_, fun huntold => ⟨?_, rfl⟩, iff_of_false nofun fun h => h.2 _ hdropped rfl⟩
  · have hbefore : ¬ Untold loaded past key := fun h =>
      htold ⟨h.null, hdropped, fun record hmem => h.unput record (hput.1 hmem)⟩
    have hnull : stored ≠ some .null := fun hstored => by
      obtain ⟨hloaded, huntouched⟩ := h.null.1 hstored
      exact htold ⟨hloaded, hdropped, fun record hmem => huntouched _ (hput.1 hmem) rfl⟩
    rw [h.told hbefore]
    split
    · rename_i hnone
      exact hnone.resolve_right hnull
    · rfl
  · have hunput (record : Table Value) : Call.put key record ∉ past := fun hmem =>
      huntold.unput record (hput.2 hmem)
    by_cases hbefore : Call.drop key ∈ past
    · obtain ⟨hcopied, hstored⟩ := h.untold ⟨huntold.null, hbefore, hunput⟩
      rw [if_pos (.inl hstored), hcopied]
    · -- the key was left alone until now, so that the null that was loaded is there
      have hstored : stored = some .null := by
        refine h.null.2 ⟨huntold.null, fun c hc => ?_⟩
        rintro rfl
        cases c with
        | put key record => exact hunput record hc
        | drop key => exact hbefore hc
      rw [if_pos (.inr hstored), h.told fun h => hbefore h.dropped, hstored]

end Tallies

/-- **How far the copy goes with the store** after a history of calls. -/
structure Copies (loaded : Table Value) (past : List Call) (values copy : Table Value) : Prop where
  stored : values.Named
  copied : copy.Named
  tallies : ∀ key, Tallies loaded past key (copy.find? (.text key)) (values.find? (.text key))

namespace Copies

variable {copy : Table Value}

theorem init (h : loaded.Named) : Copies loaded [] loaded loaded := ⟨h, h, tallies_nil loaded⟩

theorem drop (h : Copies loaded past values copy) (key : Text) :
    Copies loaded (.drop key :: past) (values.erase (.text key))
      (replay copy (farewell values (.text key))) := by
  have hreplay : replay copy (farewell values (.text key)) =
      if values.find? (.text key) = none ∨ values.find? (.text key) = some .null then copy
      else copy.erase (.text key) := by
    cases hfind : values.find? (.text key) with
    | none => rw [farewell_of_none hfind, if_pos (.inl rfl)]; rfl
    | some v =>
      by_cases hv : v = .null
      · subst hv
        rw [farewell_of_null hfind, if_pos (.inr rfl)]
        rfl
      · rw [farewell_of_some hfind hv, if_neg (by simpa using hv)]
        rfl
  rw [hreplay]
  refine ⟨h.stored.erase _, ?_, fun l => ?_⟩
  · split
    · exact h.copied
    · exact h.copied.erase _
  · rw [apply_ite (Table.find? · (.text l)), Table.find?_erase_text h.stored.distinct,
      Table.find?_erase_text h.copied.distinct]
    by_cases hl : key = l
    · subst hl
      rw [if_pos rfl, if_pos rfl]
      exact (h.tallies key).drop
    · rw [if_neg hl, if_neg hl, ite_self]
      exact (h.tallies l).other hl

theorem put_of (h : Copies loaded past values copy) {key : Text} {record values' copy' : Table Value}
    {o : Option Value} (ho : o ≠ some .null) (hvalues : values'.Named) (hcopy : copy'.Named)
    (hstored : ∀ l, values'.find? (.text l) = if key = l then o else values.find? (.text l))
    (hcopied : ∀ l, copy'.find? (.text l) = if key = l then o else copy.find? (.text l)) :
    Copies loaded (.put key record :: past) values' copy' := by
  refine ⟨hvalues, hcopy, fun l => ?_⟩
  rw [hstored, hcopied]
  by_cases hl : key = l
  · subst hl
    rw [if_pos rfl, if_pos rfl]
    exact Tallies.put List.mem_cons_self ho
  · rw [if_neg hl, if_neg hl]
    exact (h.tallies l).other hl

theorem put (h : Copies loaded past values copy) (key : Text) (record : Table Value) :
    Copies loaded (.put key record :: past) (values.insert (.text key) (.object record))
      (copy.insert (.text key) (.object record)) :=
  h.put_of (o := some (.object record)) nofun (h.stored.insert key _) (h.copied.insert key _)
    (fun _ => Table.find?_insert_text ..) fun _ => Table.find?_insert_text ..

theorem put_erase (h : Copies loaded past values copy) (key : Text) (record : Table Value) :
    Copies loaded (.put key record :: past)
      ((values.insert (.text key) (.object record)).erase (.text key))
      ((copy.insert (.text key) (.object record)).erase (.text key)) := by
  have hfind {t : Table Value} (ht : t.Named) (l : Text) :
      ((t.insert (.text key) (.object record)).erase (.text key)).find? (.text l) =
        if key = l then none else t.find? (.text l) := by
    rw [Table.find?_erase_text (ht.insert key _).distinct, Table.find?_insert_text]
    split <;> rfl
  exact h.put_of (o := none) nofun ((h.stored.insert key _).erase _) ((h.copied.insert key _).erase _)
    (hfind h.stored) (hfind h.copied)

end Copies

/-- **After every history of calls** the news that one who attends has make the copy that goes with
the store. -/
theorem sees_afterAll (start : Store) (hnamed : start.values.Named) (hstart : start.Attended name)
    (hsilent : start.newsOf name = []) (past : List Call) :
    ∃ values news, (afterAll Call.act start past).Sees name values news ∧
      Copies start.values past values (replay start.values news) := by
  induction past with
  | nil => exact ⟨_, [], ⟨hstart, rfl, hsilent⟩, Copies.init hnamed⟩
  | cons c past ih =>
    obtain ⟨values, news, hsees, hcopies⟩ := ih
    have hreplay (more : List News) : replay start.values (news ++ more) =
        replay (replay start.values news) more := List.foldl_append
    cases c with
    | put key record =>
      rcases sees_setValue hcopies.stored.distinct hsees key record with hset | hset
      · exact ⟨_, _, hset, hreplay _ ▸ hcopies.put key record⟩
      · refine ⟨_, _, hset, ?_⟩
        rw [List.append_assoc, hreplay]
        exact hcopies.put_erase key record
    | drop key =>
      exact ⟨_, _, sees_removeValue hsees key, hreplay _ ▸ hcopies.drop key⟩

/-! ### The copy and the store -/

theorem eq_of_getD_eq {a b : Option Value} (h : ∀ default, a.getD default = b.getD default) : a = b := by
  cases a with
  | none =>
    cases b with
    | none => rfl
    | some v => exact nomatch (h .null).trans (h (.bool true)).symm
  | some w =>
    cases b with
    | none => exact nomatch (h .null).symm.trans (h (.bool true))
    | some v => exact congrArg some (h .null)

/-- The store shows what a table holds iff it finds the same under every text. -/
theorem shows_iff {t : Table Value} (hs : s.values.Named) (ht : t.Named) :
    s.Shows t ↔ ∀ key, t.find? (.text key) = s.values.find? (.text key) := by
  constructor
  · intro h key
    exact (eq_of_getD_eq fun default => Except.ok.inj (h.getValue (.text key) default)).symm
  · intro h
    refine ⟨fun key default => ?_, hs.keys_perm ht fun key => (h key).symm⟩
    unfold getValue
    refine bind_congr fun k => ?_
    cases k with
    | text name => dsimp only; rw [h]
    | _ =>
      -- nothing is there under any other key
      rw [hs.find?_eq_none rfl, ht.find?_eq_none rfl]

theorem named_onFile {d : Disk} {p : Path} (h : onFile d p = .ok s) : s.values.Named :=
  ⟨(legible_onFile h).distinct, fun q hq => ((legible_onFile h).members q hq).1⟩

/-- **The news make a copy of the store**, unless a key that was loaded as null has gone.  Whatever was
loaded from a file, whatever is put and dropped then, and whether or not the disk takes it: after each
call one who attends has heard enough to know what the store shows, iff every key that was loaded as
null and dropped was also put.  Nobody is told of the removal of a null. -/
theorem shows_replay_iff {d : Disk} {p : Path} {fresh : Store} {subscribers : List Subscriber}
    (hfresh : onFile d p = .ok fresh) (hattended : Attended name { fresh with subscribers })
    (past : List Call) :
    let s := afterAll Call.act { fresh with subscribers } past
    s.Shows (replay fresh.values (s.newsOf name)) ↔
      ∀ key, fresh.values.find? (.text key) = some .null → .drop key ∈ past →
        ∃ record, .put key record ∈ past := by
  intro s
  have hsilent : newsOf name { fresh with subscribers } = [] := by
    obtain ⟨values, -, rfl⟩ := onFile_eq_ok_iff.1 hfresh
    rfl
  have hnamed : fresh.values.Named := named_onFile hfresh
  obtain ⟨values, news, hsees, hcopies⟩ :=
    sees_afterAll { fresh with subscribers } hnamed hattended hsilent past
  obtain rfl : s.values = values := hsees.values
  obtain rfl : s.newsOf name = news := hsees.news
  rw [shows_iff hcopies.stored hcopies.copied]
  refine forall_congr' fun key => ?_
  have htallies := hcopies.tallies key
  constructor
  · intro hsame hnull hdropped
    by_contra hunput
    obtain ⟨hcopied, hstored⟩ := htallies.untold ⟨hnull, hdropped, not_exists.1 hunput⟩
    exact nomatch hcopied.symm.trans (hsame.trans hstored)
  · intro hput
    refine htallies.told fun huntold => ?_
    obtain ⟨record, hmem⟩ := hput huntold.null huntold.dropped
    exact huntold.unput record hmem

/-- A store whose file holds a null, before anything is done with it. -/
def blank : Store where
  values := [(.text "a", .null)]
  backing := some shelf
  disk := { nodes := [(["state.json"], .file "\x7b\"a\": null\x7d".toUTF8)] }

theorem onFile_blank : onFile blank.disk shelf = .ok blank := by
  have hparse : Json.parse "\x7b\"a\": null\x7d" = .ok (.object blank.values) :=
    eq_ok_of_toOption (by decide +kernel)
  have hholds : blank.disk.Holds shelf ["state.json"] "\x7b\"a\": null\x7d".toUTF8 := ⟨rfl, rfl⟩
  rw [onFile, loadState_of_holds hholds hparse]
  rfl

/-- One who attends between a recruiter and one who removes what it hears of. -/
def company : List Subscriber :=
  [{ name := "recruiter", reaction := .recruit }, { name := "copyist" },
    { name := "remover", reaction := .remove }]

theorem attended_company : Attended "copyist" { blank with subscribers := company } where
  placed := ⟨[{ name := "recruiter", reaction := .recruit }], { name := "copyist" },
    [{ name := "remover", reaction := .remove }], rfl, rfl, by decide, by decide⟩
  alone := by decide

/-- The copy goes with the store again once the key was put. -/
theorem shows_replay_company :
    let s := afterAll Call.act { blank with subscribers := company } [.put "a" [], .drop "a"]
    s.Shows (replay blank.values (s.newsOf "copyist")) := by
  refine (shows_replay_iff onFile_blank attended_company _).2 fun key hnull hdropped => ?_
  obtain rfl : key = "a" := by simpa using hdropped
  exact ⟨[], List.mem_cons_self⟩

/-- **A null is removed and nobody hears of it**: the copy has a key that the store does not show. -/
theorem shows_replay_null :
    let s := afterAll Call.act { blank with subscribers := [{ name := "copyist" }] } [.drop "a"]
    onFile blank.disk shelf = .ok blank ∧ s.newsOf "copyist" = [] ∧ s.keys = [] ∧
      ¬ s.Shows (replay blank.values (s.newsOf "copyist")) := by
  intro s
  have hnews : s.newsOf "copyist" = [] := List.isEmpty_iff.1 (by decide +kernel)
  have hkeys : s.keys = [] := by decide +kernel
  refine ⟨onFile_blank, hnews, hkeys, fun h => ?_⟩
  have hlength := h.keys.length_eq
  rw [hkeys, hnews] at hlength
  cases hlength

end Store

end BatteryMonitor
