import BatteryMonitor.Proofs.Store

/-!
# What a listener hears

A store remembers what its subscribers heard.  Of one key a listener hears that a record was set or
that it was removed (`Store.heardOf`).  If it hears everything exactly once and nobody removes
records in the meantime (`Store.Audible`), then what it hears of a key is what was done with the
key:

* `Store.glance_setValue` : it hears of a record that is set;
* `Store.glance_removeValue_eq` : it hears of a record that is removed, if there was one;
* `Store.glance_setValue_of_ne`, `Store.glance_removeValue_of_ne` : it hears nothing of a key when
  another one is written or removed.

Together with what it heard of a key one follows the record under it (`Store.glance`), since
removing is told of only where there is something to remove.

If others do remove records, what it hears of a key is still a function of what was done with the
key and of those who subscribed at the start (`Store.Audience`, `Store.glance_setValue_eq`).
-/

namespace BatteryMonitor

namespace Store

open Effect

variable {name : String} {k : Key} {s s' : Store} {members : Table Value}
  {base : List Subscriber}

/-- What a subscriber heard of a key, the last first: records that were set, and that the key was
removed. -/
def heardOf (name : String) (k : Key) (s : Store) : List (Option Value) :=
  ((s.heard.filter fun n => n.subscriber = name ∧ n.key = k).map (·.record)).reverse

/-- What is kept whenever a record is set or removed. -/
structure Upheld (A : Store → Prop) : Prop where
  remove : ∀ key, Keeps A (removeValue key)
  set : ∀ key record, Keeps A (setValue key record)

/-- Nobody has subscribed but those of the `base` and their recruits, none of whom has the name. -/
structure Audience (name : String) (base : List Subscriber) (s : Store) : Prop where
  alone : ∀ subscriber ∈ base, subscriber.reaction = .recruit → subscriber.name ++ "+" ≠ name
  joined : ∃ recruits, s.subscribers = base ++ recruits ∧
    ∀ recruit ∈ recruits, recruit.reaction = .listen ∧ recruit.name ≠ name

theorem Audience.subscribe (h : s.Audience name base) {recruit : String} (hname : recruit ≠ name) :
    (s.subscribe { name := recruit }).Audience name base := by
  obtain ⟨recruits, heq, hrecruits⟩ := h.joined
  refine ⟨h.alone, recruits ++ [{ name := recruit }], ?_, fun x hx => ?_⟩
  · rw [Store.subscribe, heq, List.append_assoc]
  · rcases List.mem_append.1 hx with hx | hx
    · exact hrecruits x hx
    · rw [List.mem_singleton.1 hx]
      exact ⟨rfl, hname⟩

theorem Audience.recruit_ne (h : s.Audience name base) {x : Subscriber} (hx : x ∈ s.subscribers)
    (hrecruit : x.reaction = .recruit) : x.name ++ "+" ≠ name := by
  obtain ⟨recruits, heq, hrecruits⟩ := h.joined
  rw [heq] at hx
  rcases List.mem_append.1 hx with hx | hx
  · exact h.alone x hx hrecruit
  · rw [(hrecruits x hx).1] at hrecruit
    cases hrecruit

theorem lasting_audience (name : String) (base : List Subscriber) :
    Lasting (Audience name base) where
  save := keeps_save fun _ _ hs => ⟨hs.alone, hs.joined⟩
  join _ _ _ hs₀ hm hrecruit hs := hs.subscribe (hs₀.recruit_ne hm hrecruit)
  erase _ _ hs := ⟨hs.alone, hs.joined⟩

theorem upheld_audience (name : String) (base : List Subscriber) :
    Upheld (Audience name base) where
  remove _ := keeps_removeValue (lasting_audience name base) fun _ _ _ _ hs => ⟨hs.alone, hs.joined⟩
  set _ _ := keeps_setValue (lasting_audience name base)
    (fun _ _ _ _ _ _ hs => ⟨hs.alone, hs.joined⟩) fun _ _ _ _ _ hs => ⟨hs.alone, hs.joined⟩

theorem Audience.countP_eq (h : s.Audience name base) :
    s.subscribers.countP (·.name = name) = base.countP (·.name = name) := by
  obtain ⟨recruits, heq, hrecruits⟩ := h.joined
  have hnone : recruits.countP (·.name = name) = 0 :=
    List.countP_eq_zero.2 fun x hx => by simpa using (hrecruits x hx).2
  rw [heq, List.countP_append, hnone, Nat.add_zero]

/-- One subscriber has the name and hears of everything once, recruits have other names, and nobody
removes records. -/
structure Audible (name : String) (s : Store) : Prop where
  once : s.subscribers.countP (·.name = name) = 1
  alone : ∀ subscriber ∈ s.subscribers, subscriber.reaction = .recruit →
    subscriber.name ++ "+" ≠ name
  quiet : s.Quiet

theorem lasting_audible (name : String) : Lasting (Audible name) where
  save := keeps_save fun _ _ hs => ⟨hs.once, hs.alone, hs.quiet⟩
  join s₀ s subscriber hs₀ hm hrecruit hs := by
    refine ⟨?_, fun x hx hx' => ?_, quiet_subscribe hs.quiet _⟩
    · have hname : subscriber.name ++ "+" ≠ name := hs₀.alone subscriber hm hrecruit
      simp only [subscribe, List.countP_append, hs.once, List.countP_singleton, hname,
        decide_false, Bool.false_eq_true, if_false]
    -- a recruit only listens
    · rcases List.mem_append.1 hx with hx | hx
      · exact hs.alone x hx hx'
      · rw [List.mem_singleton.1 hx] at hx'
        cases hx'
  erase _ _ hs := ⟨hs.once, hs.alone, hs.quiet⟩

theorem upheld_audible (name : String) : Upheld (Audible name) where
  remove _ := keeps_removeValue (lasting_audible name)
    fun _ _ _ _ hs => ⟨hs.once, hs.alone, hs.quiet⟩
  set _ _ := keeps_setValue (lasting_audible name)
    (fun _ _ _ _ _ _ hs => ⟨hs.once, hs.alone, hs.quiet⟩)
    fun _ _ _ _ _ hs => ⟨hs.once, hs.alone, hs.quiet⟩

theorem Audible.audience (h : s.Audible name) : s.Audience name s.subscribers :=
  ⟨h.alone, [], (List.append_nil _).symm, nofun⟩

/-! ### What is heard -/

theorem heardOf_told (n : Notification) : (s.told n).heardOf name k =
    (if n.subscriber = name ∧ n.key = k then [n.record] else []) ++ s.heardOf name k := by
  unfold heardOf told
  rw [List.filter_append, List.map_append, List.reverse_append]
  congr 1
  by_cases hn : n.subscriber = name ∧ n.key = k <;> simp [hn]

theorem lasting_heardOf (name : String) (k : Key) (told : List (Option Value)) :
    Lasting fun s => s.heardOf name k = told :=
  ⟨keeps_save fun _ _ hs => hs, fun _ _ _ _ _ _ hs => hs, fun _ _ hs => hs⟩

theorem heardOf_told_of_ne {l : Key} (h : l ≠ k) (subscriber : String) (o : Option Value) :
    (s.told ⟨subscriber, l, o⟩).heardOf name k = s.heardOf name k := by
  rw [heardOf_told, if_neg fun hn => h hn.2, List.nil_append]

theorem heardOf_save (h : Completes save s () s') : s'.heardOf name k = s.heardOf name k :=
  h.keeps (keeps_save (P := fun t => t.heardOf name k = s.heardOf name k) fun _ _ ht => ht) rfl

theorem heardOf_hear_react {subscriber : Subscriber} {o : Option Value} {u : PUnit}
    (h : Completes (do hear subscriber k o; react subscriber) s u s') : s'.heardOf name k =
      (if subscriber.name = name then [o] else []) ++ s.heardOf name k := by
  simp only [hear, completes_modify_bind] at h
  refine h.keeps (keeps_react (P := fun t => t.heardOf name k =
    (if subscriber.name = name then [o] else []) ++ s.heardOf name k) fun _ _ ht => ht) ?_
  rw [← told, heardOf_told]
  simp only [and_true]

theorem heardOf_forIn {f : Subscriber → PUnit → M (ForInStep PUnit)} {o : Option Value}
    {u : PUnit} : ∀ {subscribers : List Subscriber} {s s' : Store},
      (∀ x ∈ subscribers, ∀ r s s', Completes (f x ⟨⟩) s r s' → r = .yield ⟨⟩ ∧
        s'.heardOf name k = (if x.name = name then [o] else []) ++ s.heardOf name k) →
      Completes (forIn subscribers PUnit.unit f) s u s' → s'.heardOf name k =
        List.replicate (subscribers.countP (·.name = name)) o ++ s.heardOf name k := by
  intro subscribers
  induction subscribers with
  | nil =>
    intro s s' _ h
    rw [(completes_pure.1 h).2]
    rfl
  | cons x xs ih =>
    intro s s' step h
    rw [List.forIn_cons] at h
    obtain ⟨r, t, hx, h⟩ := completes_bind.1 h
    obtain ⟨rfl, ht⟩ := step x List.mem_cons_self r s t hx
    rw [ih (fun y hy => step y (List.mem_cons_of_mem _ hy)) h, ht, List.countP_cons]
    by_cases hname : x.name = name <;> simp [hname, List.replicate_succ']

theorem heardOf_announceRemoval (h : Completes (announceRemoval k) s () s') :
    s'.heardOf name k =
      List.replicate (s.subscribers.countP (·.name = name)) none ++ s.heardOf name k := by
  simp only [announceRemoval, completes_get_bind] at h
  obtain ⟨u, t, hloop, h⟩ := completes_bind.1 h
  obtain ⟨-, rfl⟩ := completes_pure.1 h
  refine heardOf_forIn (o := none) (fun x hx r s s' hbody => ?_) hloop
  rw [← bind_assoc] at hbody
  obtain ⟨u, t, hhear, hbody⟩ := completes_bind.1 hbody
  obtain ⟨rfl, rfl⟩ := completes_pure.1 hbody
  exact ⟨rfl, heardOf_hear_react hhear⟩

/-! ### Keys that are texts -/

/-- What is known of a key: what the subscriber heard of it, and its record. -/
def glance (name : String) (key : Text) (s : Store) : List (Option Value) × Option Value :=
  (s.heardOf name (.text key), s.record? (.text key))

variable {key key' : Text}

/-- What is known of a key when its record is removed: that is told of if there was one. -/
def parted (name : String) (base : List Subscriber) :
    List (Option Value) × Option Value → List (Option Value) × Option Value
  | (heard, none) | (heard, some .null) => (heard, none)
  | (heard, some _) => (List.replicate (base.countP (·.name = name)) none ++ heard, none)

/-- What is known of a key after a subscriber was told of its record, and perhaps removed it. -/
def echo (name : String) (base : List Subscriber) (record : Value)
    (known : List (Option Value) × Option Value) (x : Subscriber) :
    List (Option Value) × Option Value :=
  let known := ((if x.name = name then [some record] else []) ++ known.1, known.2)
  if x.reaction = .remove then parted name base known else known

theorem foldl_echo_recruits {recruits : List Subscriber} {record : Value}
    {known : List (Option Value) × Option Value}
    (h : ∀ recruit ∈ recruits, recruit.reaction = .listen ∧ recruit.name ≠ name) :
    recruits.foldl (echo name base record) known = known := by
  induction recruits with
  | nil => rfl
  | cons x xs ih =>
    obtain ⟨hlistens, hname⟩ := h x List.mem_cons_self
    have hx : echo name base record known x = known := by
      simp [echo, hlistens, hname]
    rw [List.foldl_cons, hx, ih fun y hy => h y (List.mem_cons_of_mem _ hy)]

/-- Where nobody removes records, everyone hears of the record in turn. -/
theorem foldl_echo_quiet {subscribers : List Subscriber} {record : Value}
    (h : ∀ x ∈ subscribers, x.reaction ≠ .remove) :
    ∀ known : List (Option Value) × Option Value,
      subscribers.foldl (echo name base record) known = (List.replicate
        (subscribers.countP (·.name = name)) (some record) ++ known.1, known.2) := by
  induction subscribers with
  | nil => exact fun known => rfl
  | cons x xs ih =>
    intro known
    rw [List.foldl_cons, ih fun y hy => h y (List.mem_cons_of_mem _ hy), echo,
      if_neg (h x List.mem_cons_self), List.countP_cons]
    by_cases hname : x.name = name <;> simp [hname, List.replicate_succ']

/-- **Removing a record**, whatever those do who hear of it. -/
theorem glance_removeValue_eq (hd : s.values.Distinct) (hs : s.Audience name base)
    (h : Completes (removeValue (.text key)) s () s') :
    s'.glance name key = parted name base (s.glance name key) := by
  have hgone : s'.record? (.text key) = none := by
    rw [record?_removeValue hd h, if_pos rfl]
  have hglance : s'.glance name key = (s'.heardOf name (.text key), none) := by
    rw [glance, hgone]
  rw [hglance, glance]
  have hrecord : s.record? (.text key) = s.values.find? (.text key) := rfl
  simp only [removeValue, completes_get_bind] at h
  split at h
  · rename_i hempty
    rw [hrecord, List.isEmpty_iff.1 hempty, heardOf_save h]
    rfl
  · simp only [Value.key, Value.key?, completes_set_bind] at h
    rw [hrecord]
    split at h
    · rename_i hfind
      rw [hfind, heardOf_save h]
      rfl
    · rename_i hfind
      rw [hfind, heardOf_save h]
      rfl
    · rename_i record hnull hfind
      obtain ⟨u, t, hannounce, hsave⟩ := completes_bind.1 h
      rw [heardOf_save hsave, heardOf_announceRemoval hannounce, hfind, parted]
      · rw [← hs.countP_eq]
        rfl
      · exact hnull

/-- **One subscriber is told of a record.** -/
theorem glance_tell {x : Subscriber} {record : Value} {r : ForInStep PUnit}
    (hd : s.values.Distinct) (hs : s.Audience name base)
    (hrecruit : x.reaction = .recruit → x.name ++ "+" ≠ name)
    (h : Completes (do
      hear x (.text key) (some record)
      react x
      if x.reaction = .remove then do
        removeValue (.text key)
        pure (ForInStep.yield PUnit.unit)
      else pure (ForInStep.yield PUnit.unit)) s r s') :
    r = .yield ⟨⟩ ∧ s'.values.Distinct ∧ s'.Audience name base ∧
      s'.glance name key = echo name base record (s.glance name key) x := by
  rw [← bind_assoc] at h
  obtain ⟨u, t, hhear, h⟩ := completes_bind.1 h
  have hvalues : t.values = s.values := hhear.keeps (keeps_hear_react
    (P := fun t => t.values = s.values) (fun _ _ ht => ht) fun _ _ ht => ht) rfl
  have ht : t.Audience name base := hhear.keeps (keeps_hear_react
    (fun _ _ ht => ⟨ht.alone, ht.joined⟩) fun hx _ ht => ht.subscribe (hrecruit hx)) hs
  have hdistinct : t.values.Distinct := hvalues ▸ hd
  have hglance : t.glance name key =
      ((if x.name = name then [some record] else []) ++ s.heardOf name (.text key),
        s.record? (.text key)) := by
    rw [glance, heardOf_hear_react hhear, record?, hvalues]
    rfl
  split at h
  · rename_i hremove
    obtain ⟨u', t', hremoved, h⟩ := completes_bind.1 h
    obtain ⟨rfl, rfl⟩ := completes_pure.1 h
    refine ⟨rfl, hremoved.keeps (keeps_distinct_removeValue _) hdistinct,
      hremoved.keeps ((upheld_audience name base).remove _) ht, ?_⟩
    rw [glance_removeValue_eq hdistinct ht hremoved, hglance, echo, if_pos hremove]
    rfl
  · rename_i hstays
    obtain ⟨rfl, rfl⟩ := completes_pure.1 h
    refine ⟨rfl, hdistinct, ht, ?_⟩
    rw [hglance, echo, if_neg hstays]
    rfl

theorem glance_forIn {record : Value} {u : PUnit} : ∀ {subscribers : List Subscriber}
    {s s' : Store}, s.values.Distinct → s.Audience name base →
      (∀ x ∈ subscribers, x.reaction = .recruit → x.name ++ "+" ≠ name) →
      Completes (forIn subscribers PUnit.unit fun x _ => do
        hear x (.text key) (some record)
        react x
        if x.reaction = .remove then do
          removeValue (.text key)
          pure (ForInStep.yield PUnit.unit)
        else pure (ForInStep.yield PUnit.unit)) s u s' →
      s'.glance name key = subscribers.foldl (echo name base record) (s.glance name key) := by
  intro subscribers
  induction subscribers with
  | nil =>
    intro s s' _ _ _ h
    rw [(completes_pure.1 h).2]
    rfl
  | cons x xs ih =>
    intro s s' hd hs hrecruits h
    rw [List.forIn_cons] at h
    obtain ⟨r, t, hx, h⟩ := completes_bind.1 h
    obtain ⟨rfl, hdistinct, haudience, htold⟩ :=
      glance_tell hd hs (hrecruits x List.mem_cons_self) hx
    rw [ih hdistinct haudience (fun y hy => hrecruits y (List.mem_cons_of_mem _ hy)) h, htold]
    rfl

/-- **Setting a record**, whatever those do who hear of it: they are told one after the other. -/
theorem glance_setValue_eq (hd : s.values.Distinct) (hs : s.Audience name base)
    (h : Completes (setValue (.text key) (.object members)) s () s') :
    s'.glance name key = base.foldl (echo name base (.object members))
      (s.heardOf name (.text key), some (.object members)) := by
  simp only [setValue, Value.toTable, Value.key, Value.key?, completes_modify_bind] at h
  obtain ⟨u, t, hannounce, hsave⟩ := completes_bind.1 h
  have hvalues : s'.values = t.values :=
    hsave.keeps (keeps_save (P := fun t' => t'.values = t.values) fun _ _ ht => ht) rfl
  have hsaved : s'.glance name key = t.glance name key := by
    rw [glance, heardOf_save hsave, record?, hvalues]
    rfl
  simp only [announce, completes_get_bind] at hannounce
  obtain ⟨u', t', hloop, hdone⟩ := completes_bind.1 hannounce
  obtain ⟨-, rfl⟩ := completes_pure.1 hdone
  -- the loop starts from a store that has the record
  let set : Store := { s with values := s.values.insert (.text key) (.object members) }
  have hset : set.Audience name base := ⟨hs.alone, hs.joined⟩
  have hglance : set.glance name key = (s.heardOf name (.text key), some (.object members)) :=
    Prod.ext rfl ((Table.find?_insert _ _ _ _).trans (if_pos rfl))
  have hturns := glance_forIn (s := set) (hd.insert _ _) hset (fun x hx => hs.recruit_ne hx) hloop
  obtain ⟨recruits, hjoined, hrecruits⟩ := hs.joined
  rw [hsaved, hturns, hglance, hjoined, List.foldl_append, foldl_echo_recruits hrecruits]

/-- **Setting a record is heard of.** -/
theorem glance_setValue (hd : s.values.Distinct) (hs : s.Audible name)
    (h : Completes (setValue (.text key) (.object members)) s () s') :
    s'.glance name key =
      (some (.object members) :: s.heardOf name (.text key), some (.object members)) := by
  rw [glance_setValue_eq hd hs.audience h, foldl_echo_quiet hs.quiet, hs.once]
  rfl

theorem glance_setValue_of_ne (hd : s.values.Distinct) (hne : key' ≠ key)
    (h : Completes (setValue (.text key') (.object members)) s () s') :
    s'.glance name key = s.glance name key := by
  refine Prod.ext (h.keeps (keeps_setValue (lasting_heardOf name (.text key) _)
    (fun t x k o hk _ ht => ?_) fun _ _ _ _ _ ht => ht) rfl)
    ((record?_setValue hd h).2.1 _ (Value.entryOf?_text_ne hne))
  rw [← ht]
  exact heardOf_told_of_ne (fun heq => hne (Key.text.inj ((Option.some.inj hk).trans heq))) x o

theorem glance_removeValue_of_ne (hd : s.values.Distinct) (hne : key' ≠ key)
    (h : Completes (removeValue (.text key')) s () s') :
    s'.glance name key = s.glance name key := by
  refine Prod.ext (h.keeps (keeps_removeValue (lasting_heardOf name (.text key) _)
    fun t x k hk ht => ?_) rfl) ?_
  · rw [← ht]
    exact heardOf_told_of_ne (fun heq => hne (Key.text.inj ((Option.some.inj hk).trans heq))) x none
  · exact (record?_removeValue hd h _).trans (if_neg (Value.entryOf?_text_ne hne))

end Store

end BatteryMonitor
