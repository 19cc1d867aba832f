import BatteryMonitor.Proofs.Effect
import BatteryMonitor.Proofs.Report
import BatteryMonitor.Watch

/-!
# What a watch remembers of the primary battery

Apart from the window and the timers, a watch remembers the primary battery itself, what was last
seen of it, and whether its own estimate is trusted (`Watch.outlook`).  Only a new list and the
hardware support change that, and the list changes it in a way that the clock and the timers have
no part in (`Outlook.saw`, `Watch.outlook_batteriesChanged`); discontinuities and timers leave it
alone (`Watch.keeps_outlook_suppress`, `Watch.keeps_outlook_windowOver`).

A list whose primary battery is just as it was seen last is no news to a watch
(`Watch.completes_batteriesChanged_same`).
-/

namespace BatteryMonitor

open Effect

/-- What is remembered of the primary battery, the window apart. -/
structure Outlook where
  primary : Option Reading
  supported : Value
  useFirmware : Value
  lastExternal : Bool
  lastPresent : Bool

namespace Outlook

/-- The outlook after a list of readings was seen. -/
def saw (o : Outlook) : List Reading → Outlook
  | [] => { o with primary := none, lastPresent := false }
  | r :: _ => { o with
      primary := some r
      useFirmware :=
        if r.isPresent.truth && !o.lastPresent then .bool (r.isTrusted o.supported)
        else o.useFirmware
      lastExternal := r.externalConnected.truth
      lastPresent := r.isPresent.truth }

/-- The list is the one that was seen last. -/
structure Matches (o : Outlook) (rs : List Reading) : Prop where
  primary : o.primary = rs.head?
  lastExternal : ∀ r ∈ rs.head?, o.lastExternal = r.externalConnected.truth
  lastPresent : o.lastPresent = rs.head?.any fun r => r.isPresent.truth

theorem matches_saw (o : Outlook) (rs : List Reading) : (o.saw rs).Matches rs := by
  cases rs with
  | nil => exact ⟨rfl, fun _ h => absurd h nofun, rfl⟩
  | cons r rs =>
    refine ⟨rfl, ?_, rfl⟩
    rintro _ ⟨⟩
    rfl

theorem isKind_saw {o : Outlook} (h : o.useFirmware.isKind .bool = true) (rs : List Reading) :
    (o.saw rs).useFirmware.isKind .bool = true := by
  cases rs with
  | nil => exact h
  | cons r rs =>
    simp only [saw]
    split
    · rfl
    · exact h

end Outlook

namespace Watch

variable {τ : Type} {w w' : Watch τ}

/-- What a watch remembers of the primary battery, the window apart. -/
def outlook (w : Watch τ) : Outlook :=
  ⟨w.primary, w.conditions.supported, w.conditions.useFirmware, w.conditions.lastExternal,
    w.conditions.lastPresent⟩

variable [Scheduler τ]

theorem keeps_outlook_suppress (o : Outlook) :
    Keeps (fun w : Watch τ => w.outlook = o) suppress := by
  refine keeps_bind keeps_get fun w => ?_
  split
  · exact keeps_pure _
  · split
    · exact keeps_throw _
    · refine keeps_bind (keeps_modify fun _ hw => hw) fun _ => keeps_bind ?_ fun _ =>
        keeps_bind ?_ fun handle => keeps_modify fun _ hw => hw
      -- the timer that was pending is taken back, and a new one is armed
      · refine keeps_modify fun w hw => ?_
        dsimp only
        split <;> exact hw
      · refine keeps_get_bind fun w hw => ?_
        dsimp only
        refine keeps_bind (P := fun w => w.outlook = o) (keeps_set ?_) (fun _ => ?_) w hw
        · exact hw
        · split
          · exact keeps_pure _
          · exact keeps_throw _

theorem keeps_outlook_windowOver (o : Outlook) :
    Keeps (fun w : Watch τ => w.outlook = o) windowOver := by
  refine keeps_bind keeps_get fun w => keeps_modify fun w' hw => ?_
  unfold Conditions.closeWindow
  dsimp only
  split <;> exact hw

/-- **What a list does to the outlook.** -/
theorem outlook_batteriesChanged {rs : List Reading}
    (h : Completes (batteriesChanged rs) w () w') : w'.outlook = w.outlook.saw rs := by
  cases rs with
  | nil => cases h; rfl
  | cons r rs =>
    simp only [batteriesChanged, completes_modify_bind, completes_get_bind] at h
    -- a discontinuity, if there is one, leaves the outlook as it was
    obtain ⟨t, ht, h⟩ : ∃ t : Watch τ,
        t.outlook = ({ w with primary := some r } : Watch τ).outlook ∧ Completes (do
          adjust fun c => { c with lastExternal := r.externalConnected.truth }
          if r.isPresent.truth && !(← get).conditions.lastPresent then
            adjust fun c => { c with useFirmware := .bool (r.isTrusted c.supported) }
          adjust fun c => { c with lastPresent := r.isPresent.truth }) t () w' := by
      split at h
      · obtain ⟨u, t, hsuppress, h⟩ := completes_bind.1 h
        exact ⟨t, hsuppress.keeps (keeps_outlook_suppress _) rfl, h⟩
      · exact ⟨_, rfl, h⟩
    have hstart : w.outlook.saw (r :: rs) = { t.outlook with
        useFirmware := if r.isPresent.truth && !t.outlook.lastPresent then
          .bool (r.isTrusted t.outlook.supported) else t.outlook.useFirmware
        lastExternal := r.externalConnected.truth
        lastPresent := r.isPresent.truth } := by
      rw [ht]
      rfl
    rw [hstart]
    simp only [adjust, completes_modify_bind, completes_get_bind] at h
    split at h
    · rename_i hinserted
      rw [completes_modify_bind] at h
      obtain rfl := completes_modify.1 h
      rw [if_pos (by exact hinserted)]
      rfl
    · rename_i hinserted
      obtain rfl := completes_modify.1 h
      rw [if_neg (by exact hinserted)]
      rfl

/-- **A list whose primary battery is as it was seen last** changes nothing but the primary
battery itself. -/
theorem completes_batteriesChanged_same {rs : List Reading}
    (hexternal : ∀ r ∈ rs.head?, w.conditions.lastExternal = r.externalConnected.truth)
    (hpresent : w.conditions.lastPresent = rs.head?.any fun r => r.isPresent.truth) :
    Completes (batteriesChanged rs) w () { w with primary := rs.head? } := by
  cases rs with
  | nil =>
    rw [batteriesChanged, completes_modify]
    have habsent : w.conditions.lastPresent = false := hpresent
    rw [← habsent]
    rfl
  | cons r rs =>
    have hexternal : w.conditions.lastExternal = r.externalConnected.truth := hexternal r rfl
    have hpresent : w.conditions.lastPresent = r.isPresent.truth := hpresent
    have hplugged : ¬ (r.externalConnected.truth != w.conditions.lastExternal) = true := by
      simp [hexternal]
    have hinserted : ¬ (r.isPresent.truth && !w.conditions.lastPresent) = true := by
      simp [hpresent]
    simp only [batteriesChanged, adjust, completes_modify_bind, completes_get_bind]
    rw [if_neg hplugged, completes_modify_bind, completes_get_bind, if_neg hinserted,
      completes_modify, ← hexternal, ← hpresent]
    rfl

end Watch

end BatteryMonitor
