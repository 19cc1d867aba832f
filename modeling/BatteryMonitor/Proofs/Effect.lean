import BatteryMonitor.Fault

/-!
# Effects that may stop with a fault

The operations on a store, a watch and a monitor are all of one kind (`Effect`): they run on a
state, may stop with a fault, and what was done before a fault stays done.  There are two ways to
speak of one:

* `Effect.Completes act s a s'` : `act` runs to its end from `s`, gives `a` and leaves `s'`.  A
  sequence completes iff its parts do, one after the other (`Effect.completes_bind`), so that an
  operation that completes is taken apart step by step.
* `Effect.after act s` : the state that `act` leaves, whatever its outcome.  A property that every
  part of an operation keeps is kept by the operation (`Effect.Keeps`), also when it stops
  halfway.

Two effects that do the same on states that are related go side by side (`Effect.Coupled`).
-/

namespace BatteryMonitor

theorem bind_eq_ok {ε α β : Type} {x : Except ε α} {f : α → Except ε β} {b : β} :
    (x >>= f) = .ok b ↔ ∃ a, x = .ok a ∧ f a = .ok b := by
  cases x with
  | error e => exact ⟨nofun, nofun⟩
  | ok a => exact ⟨fun h => ⟨a, rfl, h⟩, fun ⟨_, ha, h⟩ => by cases ha; exact h⟩

theorem eq_ok_of_toOption {α : Type} {x : Except Fault α} {a : α} (h : x.toOption = some a) :
    x = .ok a := by
  cases x with
  | error fault => cases h
  | ok b => exact congrArg Except.ok (Option.some.inj h)

theorem exists_ok_of_toOption {ε α : Type} {x : Except ε α} (h : x.toOption.isSome = true) :
    ∃ a, x = .ok a := by
  cases x with
  | error e => cases h
  | ok a => exact ⟨a, rfl⟩

/-- A computation on a state that may stop with a fault. -/
abbrev Effect (σ α : Type) := ExceptT Fault (StateM σ) α

namespace Effect

variable {σ α β : Type}

/-- The effect runs to its end from `s`, gives `a` and leaves `s'`. -/
def Completes (act : Effect σ α) (s : σ) (a : α) (s' : σ) : Prop :=
  act.run.run s = (.ok a, s')

/-- The state that an effect leaves. -/
def after (act : Effect σ α) (s : σ) : σ := (act.run.run s).2

/-- The effect runs to its end. -/
def isClean (act : Effect σ α) (s : σ) : Bool := (act.run.run s).1.isOk

/-- The property holds after the effect if it held before, even if the effect stopped. -/
def Keeps (P : σ → Prop) (act : Effect σ α) : Prop := ∀ s, P s → P (after act s)

theorem Completes.after_eq {act : Effect σ α} {s s' : σ} {a : α} (h : Completes act s a s') :
    after act s = s' :=
  congrArg Prod.snd h

theorem Completes.unique {act : Effect σ α} {s s' s'' : σ} {a b : α} (h : Completes act s a s')
    (h' : Completes act s b s'') : s' = s'' :=
  h.after_eq.symm.trans h'.after_eq

theorem Completes.isClean {act : Effect σ α} {s s' : σ} {a : α} (h : Completes act s a s') :
    isClean act s = true := by
  have h' : act.run.run s = (.ok a, s') := h
  rw [Effect.isClean, h']
  rfl

theorem completes_of_outcome {act : Effect σ α} {s : σ} {a : α}
    (h : (act.run.run s).1.toOption = some a) : Completes act s a (after act s) :=
  Prod.ext (eq_ok_of_toOption h) rfl

theorem completes_of_isClean {act : Effect σ α} {s : σ} (h : isClean act s = true) :
    ∃ a, Completes act s a (after act s) := by
  cases hout : (act.run.run s).1 with
  | ok a => exact ⟨a, completes_of_outcome (by rw [hout]; rfl)⟩
  | error fault =>
    rw [isClean, hout] at h
    exact absurd h Bool.false_ne_true

/-- The effect runs to its end and gives something. -/
def yields (act : Effect σ (Option α)) (s : σ) : Bool :=
  match (act.run.run s).1 with
  | .ok a => a.isSome
  | .error _ => false

theorem completes_of_yields (act : Effect σ (Option α)) (s : σ) (h : yields act s = true) :
    ∃ a, Completes act s (some a) (after act s) := by
  rw [yields] at h
  split at h
  · rename_i a hout
    obtain ⟨a, rfl⟩ := Option.isSome_iff_exists.1 h
    exact ⟨a, completes_of_outcome (by rw [hout]; rfl)⟩
  · exact absurd h Bool.false_ne_true

theorem Completes.keeps {P : σ → Prop} {act : Effect σ α} {s s' : σ} {a : α}
    (h : Completes act s a s') (hk : Keeps P act) (hs : P s) : P s' :=
  h.after_eq ▸ hk s hs

/-! ### Effects that complete -/

@[simp] theorem completes_pure {a b : α} {s s' : σ} :
    Completes (pure a : Effect σ α) s b s' ↔ b = a ∧ s' = s := by
  constructor
  · rintro ⟨⟩; exact ⟨rfl, rfl⟩
  · rintro ⟨rfl, rfl⟩; rfl

@[simp] theorem completes_throw {fault : Fault} {a : α} {s s' : σ} :
    ¬ Completes (throw fault : Effect σ α) s a s' := nofun

theorem run_bind {x : Effect σ α} {f : α → Effect σ β} {s : σ} :
    (x >>= f).run.run s = match x.run.run s with
      | (.ok a, t) => (f a).run.run t
      | (.error fault, t) => (.error fault, t) := by
  have hrun : (x >>= f).run.run s = ExceptT.bindCont f (x.run.run s).1 (x.run.run s).2 := rfl
  rw [hrun]
  -- only the outcome of `x` decides how it goes on
  rcases x.run.run s with ⟨fault | a, t⟩ <;> rfl

theorem run_map {f : α → β} {act : Effect σ α} {s : σ} :
    (f <$> act).run.run s = ((act.run.run s).1.map f, (act.run.run s).2) := by
  rw [map_eq_pure_bind, run_bind]
  rcases act.run.run s with ⟨fault | a, t⟩ <;> rfl

theorem run_get_bind {f : σ → Effect σ β} {s : σ} :
    (get >>= f).run.run s = (f s).run.run s := rfl

theorem run_modify_bind {f : σ → σ} {g : PUnit → Effect σ β} {s : σ} :
    (modify f >>= g).run.run s = (g ⟨⟩).run.run (f s) := rfl

/-- **A sequence completes iff its parts do**, one after the other. -/
theorem completes_bind {x : Effect σ α} {f : α → Effect σ β} {s s' : σ} {b : β} :
    Completes (x >>= f) s b s' ↔ ∃ a t, Completes x s a t ∧ Completes (f a) t b s' := by
  unfold Completes
  rw [run_bind]
  constructor
  · intro h
    rcases hx : x.run.run s with ⟨fault | a, t⟩
    · rw [hx] at h; cases h
    · rw [hx] at h; exact ⟨a, t, rfl, h⟩
  · rintro ⟨a, t, hx, hf⟩
    rw [hx]; exact hf

theorem exists_bind {x : Effect σ α} {f : α → Effect σ β} {s : σ} {a : α} {b : β}
    {Q R : σ → Prop} (h : ∃ t, Completes x s a t ∧ Q t)
    (hf : ∀ t, Q t → ∃ s', Completes (f a) t b s' ∧ R s') :
    ∃ s', Completes (x >>= f) s b s' ∧ R s' := by
  obtain ⟨t, hx, ht⟩ := h
  obtain ⟨s', hrest, hs'⟩ := hf t ht
  exact ⟨s', completes_bind.2 ⟨a, t, hx, hrest⟩, hs'⟩

theorem exists_pure {a : α} {s : σ} {Q : σ → Prop} (hs : Q s) :
    ∃ s', Completes (pure a : Effect σ α) s a s' ∧ Q s' :=
  ⟨s, completes_pure.2 ⟨rfl, rfl⟩, hs⟩

@[simp] theorem completes_modify {f : σ → σ} {s s' : σ} {u : PUnit} :
    Completes (modify f : Effect σ PUnit) s u s' ↔ s' = f s := by
  constructor
  · rintro ⟨⟩; rfl
  · rintro rfl; rfl

theorem completes_get_bind {f : σ → Effect σ β} {s s' : σ} {b : β} :
    Completes (get >>= f) s b s' ↔ Completes (f s) s b s' := Iff.rfl

theorem completes_modify_bind {f : σ → σ} {g : PUnit → Effect σ β} {s s' : σ} {b : β} :
    Completes (modify f >>= g) s b s' ↔ Completes (g ⟨⟩) (f s) b s' := Iff.rfl

theorem completes_set_bind {t : σ} {g : PUnit → Effect σ β} {s s' : σ} {b : β} :
    Completes (set t >>= g) s b s' ↔ Completes (g ⟨⟩) t b s' := Iff.rfl

theorem completes_map {f : α → β} {act : Effect σ α} {s s' : σ} {b : β} :
    Completes (f <$> act) s b s' ↔ ∃ a, Completes act s a s' ∧ b = f a := by
  rw [map_eq_pure_bind, completes_bind]
  constructor
  · rintro ⟨a, t, ha, hb⟩
    obtain ⟨rfl, rfl⟩ := completes_pure.1 hb
    exact ⟨a, ha, rfl⟩
  · rintro ⟨a, ha, rfl⟩
    exact ⟨a, s', ha, completes_pure.2 ⟨rfl, rfl⟩⟩

theorem completes_discard {act : Effect σ α} {s s' : σ} {u : PUnit} :
    Completes (discard act) s u s' ↔ ∃ a, Completes act s a s' := by
  change Completes ((fun _ => PUnit.unit) <$> act) s u s' ↔ _
  simp [completes_map]

theorem discard_eq (act : Effect σ α) : discard act = (do
    let _ ← act
    return PUnit.unit) :=
  map_eq_pure_bind _ act

theorem forIn_cons_unit {ι : Type} (f : ι → Effect σ PUnit) (x : ι) (xs : List ι) :
    (forIn (x :: xs) PUnit.unit fun x _ => do
      f x
      pure (ForInStep.yield PUnit.unit) : Effect σ PUnit) = (do
      f x
      forIn xs PUnit.unit fun x _ => do
        f x
        pure (ForInStep.yield PUnit.unit)) := by
  rw [List.forIn_cons, bind_assoc]
  rfl

theorem completes_forIn {ι : Type} {Q : σ → Prop} {f : ι → β → Effect σ (ForInStep β)} :
    ∀ {xs : List ι}, (∀ x ∈ xs, ∀ b r s s', Completes (f x b) s r s' → Q s → Q s') →
      ∀ {b b' : β} {s s' : σ}, Completes (forIn xs b f) s b' s' → Q s → Q s' := by
  intro xs
  induction xs with
  | nil =>
    intro _ b b' s s' h hs
    rw [List.forIn_nil, completes_pure] at h
    exact h.2 ▸ hs
  | cons x xs ih =>
    intro step b b' s s' h hs
    rw [List.forIn_cons, completes_bind] at h
    obtain ⟨r, t, hx, h⟩ := h
    have ht : Q t := step x List.mem_cons_self b r s t hx hs
    -- the body may leave the loop early
    cases r with
    | done c =>
      rw [completes_pure] at h
      exact h.2 ▸ ht
    | yield c => exact ih (fun y hy => step y (List.mem_cons_of_mem _ hy)) h ht

theorem exists_forIn {ι : Type} {Q : σ → Prop} {f : ι → PUnit → Effect σ (ForInStep PUnit)} :
    ∀ {xs : List ι}, (∀ x ∈ xs, ∀ s, Q s → ∃ s', Completes (f x ⟨⟩) s (.yield ⟨⟩) s' ∧ Q s') →
      ∀ {s : σ}, Q s → ∃ s', Completes (forIn xs PUnit.unit f) s ⟨⟩ s' ∧ Q s' := by
  intro xs
  induction xs with
  | nil => exact fun _ s hs => exists_pure hs
  | cons x xs ih =>
    intro step s hs
    rw [List.forIn_cons]
    exact exists_bind (step x List.mem_cons_self s hs) fun t ht =>
      ih (fun y hy => step y (List.mem_cons_of_mem _ hy)) ht

theorem completes_forIn_self {ι : Type} {f : ι → PUnit → Effect σ (ForInStep PUnit)} {s : σ}
    {xs : List ι} (h : ∀ x ∈ xs, Completes (f x ⟨⟩) s (.yield ⟨⟩) s) :
    Completes (forIn xs PUnit.unit f) s ⟨⟩ s := by
  obtain ⟨s', hloop, rfl⟩ := exists_forIn (Q := fun t => t = s) (f := f)
    (fun x (hx : x ∈ xs) t ht => ⟨s, ht ▸ h x hx, rfl⟩) rfl
  exact hloop

/-! ### Properties that are kept -/

section Keeps

variable {P : σ → Prop}

theorem keeps_pure (a : α) : Keeps P (pure a : Effect σ α) := fun _ h => h

theorem keeps_throw (fault : Fault) : Keeps P (throw fault : Effect σ α) := fun _ h => h

theorem keeps_get : Keeps P (get : Effect σ σ) := fun _ h => h

theorem keeps_modify {f : σ → σ} (h : ∀ s, P s → P (f s)) :
    Keeps P (modify f : Effect σ PUnit) := h

theorem keeps_set {t : σ} (h : P t) : Keeps P (set t : Effect σ PUnit) := fun _ _ => h

theorem after_bind {x : Effect σ α} {f : α → Effect σ β} {s : σ} :
    after (x >>= f) s = match (x.run.run s).1 with
      | .ok a => after (f a) (after x s)
      | .error _ => after x s := by
  unfold after
  rw [run_bind]
  rcases x.run.run s with ⟨fault | a, t⟩ <;> rfl

theorem after_get_bind {f : σ → Effect σ β} {s : σ} : after (get >>= f) s = after (f s) s := rfl

theorem after_set_bind {t : σ} {g : PUnit → Effect σ β} {s : σ} :
    after (set t >>= g) s = after (g ⟨⟩) t := rfl

theorem after_modify_bind {f : σ → σ} {g : PUnit → Effect σ β} {s : σ} :
    after (modify f >>= g) s = after (g ⟨⟩) (f s) := rfl

theorem Completes.after_bind {x : Effect σ α} {f : α → Effect σ β} {s t : σ} {a : α}
    (h : Completes x s a t) : after (x >>= f) s = after (f a) t := by
  unfold after
  rw [run_bind, show x.run.run s = (.ok a, t) from h]

theorem after_bind_of_keeps {x : Effect σ α} {f : α → Effect σ β} {s : σ} (hx : P (after x s))
    (hf : ∀ a, Keeps P (f a)) : P (after (x >>= f) s) := by
  rw [after_bind]
  split
  · exact hf _ _ hx
  · exact hx

theorem keeps_bind {x : Effect σ α} {f : α → Effect σ β} (hx : Keeps P x)
    (hf : ∀ a, Keeps P (f a)) : Keeps P (x >>= f) :=
  fun s hs => after_bind_of_keeps (hx s hs) hf

theorem keeps_get_bind {f : σ → Effect σ β} (h : ∀ s, P s → P (after (f s) s)) :
    Keeps P (get >>= f) := by
  intro s hs
  rw [after_bind]
  exact h s hs

theorem keeps_ite {c : Prop} [Decidable c] {x y : Effect σ α} (hx : Keeps P x) (hy : Keeps P y) :
    Keeps P (if c then x else y) := by
  split <;> assumption

theorem after_discard (act : Effect σ α) (s : σ) : after (discard act) s = after act s := by
  change (((fun _ => PUnit.unit) <$> act).run.run s).2 = _
  rw [run_map]
  rfl

theorem keeps_discard {act : Effect σ α} (h : Keeps P act) : Keeps P (discard act) := by
  intro s hs
  rw [after_discard]
  exact h s hs

theorem keeps_forIn {ι : Type} {f : ι → β → Effect σ (ForInStep β)} :
    ∀ {xs : List ι}, (∀ x ∈ xs, ∀ b, Keeps P (f x b)) → ∀ b : β, Keeps P (forIn xs b f) := by
  intro xs
  induction xs with
  | nil => intro _ b; rw [List.forIn_nil]; exact keeps_pure b
  | cons x xs ih =>
    intro h b
    rw [List.forIn_cons]
    refine keeps_bind (h x List.mem_cons_self b) fun r => ?_
    cases r with
    | done c => exact keeps_pure c
    | yield c => exact ih (fun y hy => h y (List.mem_cons_of_mem _ hy)) c

/-- A loop goes from one property to another at one item: those before it keep the first property and
let the loop go on, and those behind it keep the second one. -/
theorem after_forIn_append {Q : σ → Prop} {ι : Type} {f : ι → PUnit → Effect σ (ForInStep PUnit)}
    {x : ι} {earlier later : List ι}
    (before : ∀ y ∈ earlier, ∀ s, P s → ∃ s', Completes (f y ⟨⟩) s (.yield ⟨⟩) s' ∧ P s')
    (turn : ∀ s, P s → Q (after (f x ⟨⟩) s)) (behind : ∀ y ∈ later, Keeps Q (f y ⟨⟩)) {s : σ}
    (hs : P s) : Q (after (forIn (earlier ++ x :: later) PUnit.unit f) s) := by
  induction earlier generalizing s with
  | nil =>
    rw [List.nil_append, List.forIn_cons]
    refine after_bind_of_keeps (turn s hs) fun r => ?_
    cases r with
    | done u => exact keeps_pure u
    | yield u => exact keeps_forIn (fun y hy _ => behind y hy) u
  | cons y earlier ih =>
    obtain ⟨hy, hearlier⟩ := List.forall_mem_cons.1 before
    obtain ⟨t, hbody, ht⟩ := hy s hs
    rw [List.cons_append, List.forIn_cons, hbody.after_bind]
    exact ih hearlier ht

end Keeps

theorem keeps_bind_completes {P : σ → Prop} {x : Effect σ α} {f : α → Effect σ β}
    (hx : Keeps P x)
    (hf : ∀ s a s', P s → Completes x s a s' → P s' → P (after (f a) s')) :
    Keeps P (x >>= f) := by
  intro s hs
  rw [after_bind]
  split
  · rename_i a ha
    exact hf s a (after x s) hs (Prod.ext ha rfl) (hx s hs)
  · exact hx s hs

/-! ### Two effects side by side -/

section Coupled

variable {σ' : Type} {R : σ → σ' → Prop}

/-- From related states both effects have the same outcome, and they leave related states. -/
def Coupled (R : σ → σ' → Prop) (x : Effect σ α) (y : Effect σ' α) : Prop :=
  ∀ s t, R s t → (x.run.run s).1 = (y.run.run t).1 ∧ R (after x s) (after y t)

theorem coupled_pure (a : α) : Coupled R (pure a) (pure a) := fun _ _ h => ⟨rfl, h⟩

theorem coupled_throw (fault : Fault) : Coupled R (throw fault : Effect σ α) (throw fault) :=
  fun _ _ h => ⟨rfl, h⟩

theorem coupled_modify {f : σ → σ} {g : σ' → σ'} (h : ∀ s t, R s t → R (f s) (g t)) :
    Coupled R (modify f : Effect σ PUnit) (modify g) := fun s t hst => ⟨rfl, h s t hst⟩

theorem coupled_set {s : σ} {t : σ'} (h : R s t) :
    Coupled R (set s : Effect σ PUnit) (set t) := fun _ _ _ => ⟨rfl, h⟩

theorem coupled_bind {x : Effect σ α} {y : Effect σ' α} {f : α → Effect σ β}
    {g : α → Effect σ' β} (h : Coupled R x y) (hf : ∀ a, Coupled R (f a) (g a)) :
    Coupled R (x >>= f) (y >>= g) := by
  intro s t hst
  obtain ⟨hout, hafter⟩ := h s t hst
  unfold after at hafter ⊢
  rw [run_bind, run_bind]
  generalize x.run.run s = p at hout hafter ⊢
  generalize y.run.run t = q at hout hafter ⊢
  obtain ⟨fault | a, s'⟩ := p
  · obtain ⟨_, t'⟩ := q
    cases hout
    exact ⟨rfl, hafter⟩
  · obtain ⟨_, t'⟩ := q
    cases hout
    exact hf a s' t' hafter

theorem coupled_get_bind {f : σ → Effect σ α} {g : σ' → Effect σ' α}
    (h : ∀ s t, R s t → Coupled R (f s) (g t)) : Coupled R (get >>= f) (get >>= g) :=
  fun s t hst => h s t hst s t hst

theorem coupled_bind_right {x : Effect σ α} {y : Effect σ' β} {g : β → Effect σ' α} {b : β}
    (hy : ∀ s t, R s t → ∃ t', Completes y t b t' ∧ R s t') (h : Coupled R x (g b)) :
    Coupled R x (y >>= g) := by
  intro s t hst
  obtain ⟨t', hcompletes, hst'⟩ := hy s t hst
  have hrun : (y >>= g).run.run t = (g b).run.run t' := by
    rw [run_bind, show y.run.run t = (.ok b, t') from hcompletes]
  unfold after
  rw [hrun]
  exact h s t' hst'

theorem coupled_discard {x : Effect σ α} {y : Effect σ' α} (h : Coupled R x y) :
    Coupled R (discard x) (discard y) := by
  rw [discard_eq, discard_eq]
  exact coupled_bind h fun _ => coupled_pure _

theorem coupled_ite {c : Prop} [Decidable c] {x x' : Effect σ α} {y y' : Effect σ' α}
    (h : Coupled R x y) (h' : Coupled R x' y') :
    Coupled R (if c then x else x') (if c then y else y') := by
  split <;> assumption

theorem coupled_forIn {ι : Type} {f : ι → β → Effect σ (ForInStep β)}
    {g : ι → β → Effect σ' (ForInStep β)} (h : ∀ x b, Coupled R (f x b) (g x b)) :
    ∀ (xs : List ι) (b : β), Coupled R (forIn xs b f) (forIn xs b g) := by
  intro xs
  induction xs with
  | nil => intro b; rw [List.forIn_nil, List.forIn_nil]; exact coupled_pure b
  | cons x xs ih =>
    intro b
    rw [List.forIn_cons, List.forIn_cons]
    refine coupled_bind (h x b) fun r => ?_
    cases r with
    | done c => exact coupled_pure c
    | yield c => exact ih c

theorem Coupled.completes {x : Effect σ α} {y : Effect σ' α} (h : Coupled R x y) {s s' : σ}
    {t : σ'} {a : α} (hst : R s t) (hx : Completes x s a s') :
    ∃ t', Completes y t a t' ∧ R s' t' := by
  obtain ⟨hout, hafter⟩ := h s t hst
  rw [hx.after_eq] at hafter
  refine ⟨after y t, Prod.ext (hout.symm.trans ?_) rfl, hafter⟩
  exact congrArg Prod.fst hx

theorem Coupled.completes_left {x : Effect σ α} {y : Effect σ' α} (h : Coupled R x y) {s : σ}
    {t t' : σ'} {a : α} (hst : R s t) (hy : Completes y t a t') :
    ∃ s', Completes x s a s' ∧ R s' t' := by
  obtain ⟨hout, hafter⟩ := h s t hst
  rw [hy.after_eq] at hafter
  exact ⟨after x s, Prod.ext (hout.trans (congrArg Prod.fst hy)) rfl, hafter⟩

theorem Coupled.isClean_eq {x : Effect σ α} {y : Effect σ' α} (h : Coupled R x y) {s : σ} {t : σ'}
    (hst : R s t) : isClean x s = isClean y t := by
  unfold isClean
  rw [(h s t hst).1]

end Coupled

/-! ### Histories -/

section Histories

variable {ε : Type}

/-- What holds of every event of a history, with what came before it, holds of the last event and
along the rest. -/
theorem forall_suffix_cons {P : ε → List ε → Prop} {e : ε} {past : List ε} :
    (∀ e' earlier, e' :: earlier <:+ e :: past → P e' earlier) ↔
      P e past ∧ ∀ e' earlier, e' :: earlier <:+ past → P e' earlier := by
  constructor
  · intro h
    exact ⟨h e past List.suffix_rfl,
      fun e' earlier hearlier => h e' earlier (List.suffix_cons_iff.2 (.inr hearlier))⟩
  · rintro ⟨he, hpast⟩ e' earlier hearlier
    rcases List.suffix_cons_iff.1 hearlier with heq | hsuffix
    · cases heq
      exact he
    · exact hpast e' earlier hsuffix

theorem forall_suffix_nil {P : ε → List ε → Prop} :
    ∀ e earlier, e :: earlier <:+ [] → P e earlier :=
  fun _ _ h => absurd (List.suffix_nil.1 h) nofun

variable (act : ε → Effect σ α) (start : σ)

/-- The state after a history, whose last event comes first. -/
def afterAll : List ε → σ
  | [] => start
  | e :: past => after (act e) (afterAll past)

/-- No event of a history stopped with a fault. -/
def faultless : List ε → Bool
  | [] => true
  | e :: past => faultless past && isClean (act e) (afterAll act start past)

variable {act start}

theorem faultless_cons {e : ε} {past : List ε} : faultless act start (e :: past) ↔
    faultless act start past ∧
      ∃ a, Completes (act e) (afterAll act start past) a (afterAll act start (e :: past)) := by
  rw [faultless, Bool.and_eq_true]
  refine and_congr_right fun _ => ⟨completes_of_isClean, ?_⟩
  rintro ⟨a, h⟩
  exact h.isClean

theorem faultless_of_append {past : List ε} : ∀ {later : List ε},
    faultless act start (later ++ past) → faultless act start past
  | [], h => h
  | _ :: _, h => faultless_of_append (faultless_cons.1 h).1

/-- What holds at the start and is kept by every event that completes holds after every history
without faults. -/
theorem faultless_induction {I : σ → Prop} {Q : ε → Prop} (hstart : I start)
    (hstep : ∀ e s a s', Q e → I s → Completes (act e) s a s' → I s') :
    ∀ {past : List ε}, faultless act start past → (∀ e ∈ past, Q e) →
      I (afterAll act start past) := by
  intro past
  induction past with
  | nil => exact fun _ _ => hstart
  | cons e past ih =>
    intro h hpast
    obtain ⟨hpast', a, hlast⟩ := faultless_cons.1 h
    exact hstep e _ a _ (hpast e List.mem_cons_self)
      (ih hpast' fun e he => hpast e (List.mem_cons_of_mem _ he)) hlast

theorem afterAll_induction {I : σ → Prop} {Q : ε → Prop} (hstart : I start)
    (hstep : ∀ e, Q e → Keeps I (act e)) :
    ∀ {past : List ε}, (∀ e ∈ past, Q e) → I (afterAll act start past) := by
  intro past
  induction past with
  | nil => exact fun _ => hstart
  | cons e past ih =>
    intro hpast
    obtain ⟨he, hpast⟩ := List.forall_mem_cons.1 hpast
    exact hstep e he _ (ih hpast)

theorem coupled_afterAll {σ' : Type} {R : σ → σ' → Prop} {act' : ε → Effect σ' α} {start' : σ'}
    (hstart : R start start') (h : ∀ e, Coupled R (act e) (act' e)) :
    ∀ past : List ε, R (afterAll act start past) (afterAll act' start' past)
  | [] => hstart
  | e :: past => (h e _ _ (coupled_afterAll hstart h past)).2

theorem faultless_eq_of_coupled {σ' : Type} {R : σ → σ' → Prop} {act' : ε → Effect σ' α}
    {start' : σ'} (hstart : R start start') (h : ∀ e, Coupled R (act e) (act' e)) :
    ∀ past : List ε, faultless act start past = faultless act' start' past
  | [] => rfl
  | e :: past => by
    rw [faultless, faultless, faultless_eq_of_coupled hstart h past,
      (h e).isClean_eq (coupled_afterAll hstart h past)]

end Histories

end Effect

end BatteryMonitor
