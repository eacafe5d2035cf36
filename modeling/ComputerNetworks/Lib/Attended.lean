import ComputerNetworks.Lib.Dialogue
import ComputerNetworks.Lib.Machine

/-!
# A dialogue and its other side

A machine hears what is written, and owes a reply for each thing that it puts out on it. How far it comes
while the speaker goes through a script.
-/

universe u v w x

namespace Lib.Dialogue

variable {σ : Type x} {A : Type u} {R : Type v} {K : Type w}

/-- From the state `s` on, with the replies in `owed` on their way, through a trace. Of a command the
machine hears as much as was written, and `silent` says that a reply is none. -/
inductive Attends (M : Machine σ A K) (accepts : K → R → Prop) (silent : R → Prop) :
    σ → List K → List (Event (List A) R) → σ → List K → Prop where
  | done {s : σ} {owed : List K} : Attends M accepts silent s owed [] s owed
  | wrote {s t : σ} {owed left : List K} {c : List A} {sent : Int} {tr : List (Event (List A) R)} :
    Attends M accepts silent (M.run s (c.take sent.toNat)).1
        (owed ++ (M.run s (c.take sent.toNat)).2) tr t left →
      Attends M accepts silent s owed (.wrote c sent :: tr) t left
  | received {s t : σ} {owed left : List K} {k : K} {r : R} {tr : List (Event (List A) R)} :
    accepts k r → Attends M accepts silent s owed tr t left →
      Attends M accepts silent s (k :: owed) (.received r :: tr) t left
  | silent {s t : σ} {owed left : List K} {r : R} {tr : List (Event (List A) R)} :
    silent r → Attends M accepts silent s owed tr t left →
      Attends M accepts silent s owed (.received r :: tr) t left
  | broken {s t : σ} {owed left : List K} {tr : List (Event (List A) R)} :
    Attends M accepts silent s owed tr t left →
      Attends M accepts silent s owed (.broken :: tr) t left

/-- Where a trace leads the machine, unless it cannot have it. -/
def attend (M : Machine σ A K) (accepts : K → R → Prop) (silent : R → Prop)
    [∀ k r, Decidable (accepts k r)] [DecidablePred silent] (s : σ) (owed : List K) :
    List (Event (List A) R) → Option (σ × List K)
  | [] => some (s, owed)
  | .wrote c sent :: tr =>
    attend M accepts silent (M.run s (c.take sent.toNat)).1
      (owed ++ (M.run s (c.take sent.toNat)).2) tr
  | .received r :: tr =>
    if silent r then attend M accepts silent s owed tr
    else
      match owed with
      | [] => none
      | k :: owed => if accepts k r then attend M accepts silent s owed tr else none
  | .broken :: tr => attend M accepts silent s owed tr

/-- The states through which the machine comes with a script. `cut` holds where it may be left, in the
middle of a command or behind one that it refuses, and `done` at the end of the script. -/
inductive Stages (M : Machine σ A K) (accepts : K → R → Prop) (silent : R → Prop) (cut done : σ → Prop) :
    σ → List (List A × K) → Prop where
  | done {s : σ} : done s → Stages M accepts silent cut done s []
  | next {s : σ} {c : List A} {k : K} {script : List (List A × K)} (code : K) :
    (∀ part, part <+: c → part ≠ c → (M.run s part).2 = [] ∧ cut (M.run s part).1) →
    (M.run s c).2 = [code] → (∀ r, accepts code r → accepts k r → code = k) →
    (∀ r, silent r → ¬ accepts k r) → (code ≠ k → cut (M.run s c).1) →
    (code = k → Stages M accepts silent cut done (M.run s c).1 script) →
      Stages M accepts silent cut done s ((c, k) :: script)

section Rules

variable {M : Machine σ A K} {accepts : K → R → Prop} {silent : R → Prop} {s t : σ}
  {owed left : List K} {tr : List (Event (List A) R)}

theorem attends_of_attend [∀ k r, Decidable (accepts k r)] [DecidablePred silent] :
    attend M accepts silent s owed tr = some (t, left) → Attends M accepts silent s owed tr t left := by
  induction tr generalizing s owed with
  | nil =>
    rintro ⟨⟩
    exact .done
  | cons e tr ih =>
    intro h
    cases e with
    | wrote c sent => exact .wrote (ih h)
    | broken => exact .broken (ih h)
    | received r =>
      unfold attend at h
      split at h
      · rename_i hnone
        exact .silent hnone (ih h)
      · cases owed with
        | nil => cases h
        | cons k owed =>
          simp only at h
          split at h
          · rename_i hr
            exact .received hr (ih h)
          · cases h

theorem Attends.split {front back : List (Event (List A) R)}
    (h : Attends M accepts silent s owed (front ++ back) t left) :
    ∃ u mid, Attends M accepts silent s owed front u mid ∧
      Attends M accepts silent u mid back t left := by
  induction front generalizing s owed with
  | nil => exact ⟨s, owed, .done, h⟩
  | cons e front ih =>
    cases h with
    | wrote hrest =>
      obtain ⟨u, mid, hfront, hback⟩ := ih hrest
      exact ⟨u, mid, .wrote hfront, hback⟩
    | received hr hrest =>
      obtain ⟨u, mid, hfront, hback⟩ := ih hrest
      exact ⟨u, mid, .received hr hfront, hback⟩
    | silent hr hrest =>
      obtain ⟨u, mid, hfront, hback⟩ := ih hrest
      exact ⟨u, mid, .silent hr hfront, hback⟩
    | broken hrest =>
      obtain ⟨u, mid, hfront, hback⟩ := ih hrest
      exact ⟨u, mid, .broken hfront, hback⟩

theorem Attends.invariant {I : σ → Prop} (h : Attends M accepts silent s owed tr t left) (hs : I s)
    (hstep : ∀ c ∈ commands tr, ∀ part, part <+: c → ∀ s, I s → I (M.run s part).1) : I t := by
  induction h with
  | done => exact hs
  | wrote _ ih =>
    exact ih (hstep _ List.mem_cons_self _ (List.take_prefix _ _) _ hs) fun c hc =>
      hstep c (List.mem_cons_of_mem _ hc)
  | received _ _ ih => exact ih hs hstep
  | silent _ _ ih => exact ih hs hstep
  | broken _ ih => exact ih hs hstep

theorem Attends.still (h : Attends M accepts silent s owed tr t left) (hquiet : commands tr = []) :
    t = s := by
  apply h.invariant (I := fun u => u = s) rfl
  intro c hc
  rw [hquiet] at hc
  exact absurd hc List.not_mem_nil

variable {cut done : σ → Prop}

theorem Stages.cut_or_done {script : List (List A × K)} (h : Stages M accepts silent cut done s script) :
    cut s ∨ done s := by
  cases h with
  | done hdone => exact .inr hdone
  | @next _ c _ _ code hpart hcode =>
    refine .inl (hpart [] List.nil_prefix ?_).2
    rintro rfl
    cases hcode

theorem Stages.written {c : List A} {k : K} {script : List (List A × K)} {part : List A}
    (h : Stages M accepts silent cut done s ((c, k) :: script)) (hpart : part <+: c) :
    cut (M.run s part).1 ∨ done (M.run s part).1 := by
  cases h with
  | next code hcut _ _ _ hother hmore =>
    by_cases hwhole : part = c
    · rw [hwhole]
      by_cases hcode : code = k
      · exact (hmore hcode).cut_or_done
      · exact .inl (hother hcode)
    · exact .inl (hcut part hpart hwhole).2

/-- **The rule of stages.** A talk leaves the machine where it may be left or at the end, and at the end
when the speaker has come to his. -/
theorem Stages.attended {script : List (List A × K)} {ok : Bool}
    (h : Stages M accepts silent cut done s script) (htalk : Talk accepts script tr ok)
    (hattends : Attends M accepts silent s [] tr t left) :
    (cut t ∨ done t) ∧ (ok = true → done t) := by
  induction htalk generalizing s with
  | done =>
    cases h with
    | done hdone =>
      rw [hattends.still rfl]
      exact ⟨.inr hdone, fun _ => hdone⟩
  | unsent _ =>
    cases hattends with
    | wrote hrest =>
      rw [hrest.still rfl]
      exact ⟨h.written (List.take_prefix _ _), nofun⟩
  | stuck _ hheard =>
    cases hattends with
    | wrote hrest =>
      rw [hrest.still hheard.commands_eq]
      exact ⟨h.written (List.take_prefix _ _), nofun⟩
  | @next c k script sent heard tr ok _ hheard htalk ih =>
    obtain ⟨r, hr, rfl⟩ := hheard.accepted_iff
    cases h with
    | next code hcut hcode hsame hsilent _ hmore =>
      cases hattends with
      | wrote hrest =>
        rw [List.nil_append] at hrest
        by_cases hwhole : c.take sent.toNat = c
        · rw [hwhole, hcode] at hrest
          cases hrest with
          | silent hnone _ => exact absurd hr (hsilent r hnone)
          | received hgiven hrest => exact ih (hmore (hsame r hgiven hr)) hrest
        · -- No reply is due to a part of a command.
          rw [(hcut _ (List.take_prefix _ _) hwhole).1] at hrest
          cases hrest with
          | silent hnone _ => exact absurd hr (hsilent r hnone)

end Rules

end Lib.Dialogue
