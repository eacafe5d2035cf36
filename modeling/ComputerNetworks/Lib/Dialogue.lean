import Mathlib.Data.List.Forall2
import Mathlib.Tactic.Common

/-!
# A scripted dialogue

One party says the commands of a script, one at a time, and goes on only when the reply to the last
one is the one that the script asks for.
-/

universe u v w

namespace Lib.Dialogue

/-- What the speaker does: it writes a command (`sent` is negative when that fails), it loses the
other side in the middle of a reply, or it comes to a reply. -/
inductive Event (C : Type u) (R : Type v) where
  | wrote (command : C) (sent : Int)
  | broken
  | received (reply : R)
  deriving DecidableEq, Repr

variable {C : Type u} {R : Type v} {K : Type w}

/-- The events in which nothing failed. -/
def Event.Clean : Event C R → Prop
  | .wrote _ sent => 0 ≤ sent
  | .broken => False
  | .received _ => True

def commands (tr : List (Event C R)) : List C :=
  tr.filterMap fun e => match e with
    | .wrote command _ => some command
    | _ => none

def replies (tr : List (Event C R)) : List R :=
  tr.filterMap fun e => match e with
    | .received reply => some reply
    | _ => none

section Simp

@[simp] theorem commands_nil : commands ([] : List (Event C R)) = [] := rfl
@[simp] theorem commands_wrote (c : C) (sent : Int) (tr : List (Event C R)) :
    commands (.wrote c sent :: tr) = c :: commands tr := rfl
@[simp] theorem commands_broken (tr : List (Event C R)) : commands (.broken :: tr) = commands tr := rfl
@[simp] theorem commands_received (r : R) (tr : List (Event C R)) :
    commands (.received r :: tr) = commands tr := rfl
@[simp] theorem commands_append (tr tr' : List (Event C R)) :
    commands (tr ++ tr') = commands tr ++ commands tr' := List.filterMap_append

@[simp] theorem replies_nil : replies ([] : List (Event C R)) = [] := rfl
@[simp] theorem replies_wrote (c : C) (sent : Int) (tr : List (Event C R)) :
    replies (.wrote c sent :: tr) = replies tr := rfl
@[simp] theorem replies_broken (tr : List (Event C R)) : replies (.broken :: tr) = replies tr := rfl
@[simp] theorem replies_received (r : R) (tr : List (Event C R)) :
    replies (.received r :: tr) = r :: replies tr := rfl
@[simp] theorem replies_append (tr tr' : List (Event C R)) :
    replies (tr ++ tr') = replies tr ++ replies tr' := List.filterMap_append

end Simp

theorem commands_subset_cons (e : Event C R) (tr : List (Event C R)) :
    commands tr ⊆ commands (e :: tr) := by
  cases e with
  | wrote c sent => exact List.subset_cons_self c (commands tr)
  | broken => exact List.Subset.refl _
  | received r => exact List.Subset.refl _

/-! ## The dialogue -/

variable (accepts : K → R → Prop)

/-- The speaker listens for a reply that `k` accepts. -/
inductive Hears (k : K) : List (Event C R) → Bool → Prop where
  | broken {r : R} : ¬ accepts k r → Hears k [.broken, .received r] false
  | refused {r : R} : ¬ accepts k r → Hears k [.received r] false
  | accepted {r : R} : accepts k r → Hears k [.received r] true

/-- The speaker goes through the script, and says whether it came to its end. -/
inductive Talk : List (C × K) → List (Event C R) → Bool → Prop where
  | done : Talk [] [] true
  | unsent {c : C} {k : K} {script : List (C × K)} {sent : Int} :
    sent < 0 → Talk ((c, k) :: script) [.wrote c sent] false
  | stuck {c : C} {k : K} {script : List (C × K)} {sent : Int} {heard : List (Event C R)} :
    0 ≤ sent → Hears accepts k heard false → Talk ((c, k) :: script) (.wrote c sent :: heard) false
  | next {c : C} {k : K} {script : List (C × K)} {sent : Int} {heard tr : List (Event C R)}
      {ok : Bool} :
    0 ≤ sent → Hears accepts k heard true → Talk script tr ok →
      Talk ((c, k) :: script) (.wrote c sent :: (heard ++ tr)) ok

variable {accepts}

theorem Hears.accepted_iff {k : K} {heard : List (Event C R)} (h : Hears accepts k heard true) :
    ∃ r, accepts k r ∧ heard = [.received r] := by
  cases h with
  | accepted hr => exact ⟨_, hr, rfl⟩

theorem Hears.commands_eq {k : K} {heard : List (Event C R)} {ok : Bool}
    (h : Hears accepts k heard ok) : commands heard = [] := by
  cases h <;> rfl

/-! ## What stands before a command -/

/-- `P` holds of every command in the trace, and of what stands before it. -/
def EachCommand (P : List (Event C R) → C → Prop) (tr : List (Event C R)) : Prop :=
  ∀ before c sent after, tr = before ++ .wrote c sent :: after → P before c

theorem eachCommand_nil (P : List (Event C R) → C → Prop) : EachCommand P [] := by
  rintro before c sent after h
  simp at h

theorem EachCommand.cons {P : List (Event C R) → C → Prop} {e : Event C R} {tr : List (Event C R)}
    (he : ∀ c sent, e = .wrote c sent → P [] c) (h : EachCommand (fun before => P (e :: before)) tr) :
    EachCommand P (e :: tr) := by
  rintro before c sent after heq
  cases before with
  | nil => exact he c sent (by simpa using congrArg List.head? heq)
  | cons d before =>
    obtain ⟨rfl, htr⟩ : e = d ∧ tr = before ++ .wrote c sent :: after := by simpa using heq
    exact h before c sent after htr

theorem EachCommand.append {P : List (Event C R) → C → Prop} {heard tr : List (Event C R)}
    (hc : commands heard = []) (h : EachCommand (fun before => P (heard ++ before)) tr) :
    EachCommand P (heard ++ tr) := by
  induction heard generalizing P with
  | nil => exact h
  | cons e heard ih =>
    cases e with
    | wrote c sent => simp at hc
    | broken => exact .cons (by rintro c sent ⟨⟩) (ih hc h)
    | received r => exact .cons (by rintro c sent ⟨⟩) (ih hc h)

theorem EachCommand.mono {P Q : List (Event C R) → C → Prop} {tr : List (Event C R)}
    (h : EachCommand P tr) (hPQ : ∀ before c, P before c → Q before c) : EachCommand Q tr :=
  fun before c sent after heq => hPQ before c (h before c sent after heq)

variable (accepts) in
/-- The commands in `said` have been said, the replies are those that `asked` asks for, and nothing
has failed. -/
structure Led (said : List C) (asked : List K) (before : List (Event C R)) : Prop where
  said : commands before = said
  answered : List.Forall₂ accepts asked (replies before)
  clean : ∀ e ∈ before, e.Clean

theorem led_nil : Led accepts [] [] ([] : List (Event C R)) := ⟨rfl, .nil, by simp⟩

theorem Led.received {said : List C} {asked : List K} {before : List (Event C R)}
    (h : Led accepts said asked before) {k : K} {r : R} (hr : accepts k r) :
    Led accepts said (k :: asked) (.received r :: before) where
  said := h.said
  answered := .cons hr h.answered
  clean := List.forall_mem_cons.mpr ⟨trivial, h.clean⟩

theorem Led.wrote {said : List C} {asked : List K} {before : List (Event C R)}
    (h : Led accepts said asked before) (c : C) {sent : Int} (hsent : 0 ≤ sent) :
    Led accepts (c :: said) asked (.wrote c sent :: before) where
  said := by rw [commands_wrote, h.said]
  answered := h.answered
  clean := List.forall_mem_cons.mpr ⟨hsent, h.clean⟩

/-! ## Failures -/

variable (accepts) in
/-- The event fails, when `asked` is asked for and `before` stands before it. -/
def Fails (asked : List K) (before : List (Event C R)) : Event C R → Prop
  | .wrote _ sent => sent < 0
  | .broken => True
  | .received r => ∃ k, asked[(replies before).length]? = some k ∧ ¬ accepts k r

theorem Led.not_fails {said : List C} {asked : List K} {n : Nat} {before mid : List (Event C R)}
    {e : Event C R} (h : Led accepts said (asked.take n) (before ++ e :: mid)) :
    ¬ Fails accepts asked before e := by
  have hclean := h.clean e (by simp)
  cases e with
  | wrote c sent => exact Int.not_lt.mpr hclean
  | broken => exact fun _ => hclean
  | received r =>
    rintro ⟨k, hk, hr⟩
    have hall := h.answered
    rw [replies_append, replies_received] at hall
    apply hr
    have hlt : (replies before).length < (asked.take n).length := by
      rw [hall.length_eq]; simp
    have := hall.get hlt (by simp)
    simp only [List.get_eq_getElem, List.getElem_take] at this
    rw [List.getElem?_eq_some_iff] at hk
    obtain ⟨_, rfl⟩ := hk
    simpa using this

theorem exists_command {tr : List (Event C R)} {c : C} (h : c ∈ commands tr) :
    ∃ before sent after, tr = before ++ .wrote c sent :: after := by
  obtain ⟨e, he, hc⟩ := List.mem_filterMap.mp h
  obtain ⟨before, after, rfl⟩ := List.append_of_mem he
  cases e with
  | wrote c' sent =>
    obtain rfl : c' = c := by simpa using hc
    exact ⟨before, sent, after, rfl⟩
  | broken => cases hc
  | received r => cases hc

theorem EachCommand.after_failure {asked : List K} {tr : List (Event C R)}
    (h : EachCommand (fun before _ => ∃ said n, Led accepts said (asked.take n) before) tr)
    {before after : List (Event C R)} {e : Event C R} (htr : tr = before ++ e :: after)
    (he : Fails accepts asked before e) : commands after = [] := by
  rw [List.eq_nil_iff_forall_not_mem]
  intro c hc
  obtain ⟨mid, sent, rest, rfl⟩ := exists_command hc
  obtain ⟨said, n, hled⟩ := h (before ++ e :: mid) c sent rest (by rw [htr]; simp)
  exact hled.not_fails he

/-! ## What a dialogue is -/

/-- **Lockstep.** A command is said only when all that the script has before it were said and had
their replies. -/
theorem Talk.eachCommand {script : List (C × K)} {tr : List (Event C R)} {ok : Bool}
    (h : Talk accepts script tr ok) :
    EachCommand (fun before c => ∃ i, (script.map Prod.fst)[i]? = some c ∧
      Led accepts ((script.map Prod.fst).take i) ((script.map Prod.snd).take i) before) tr := by
  induction h with
  | done => exact eachCommand_nil _
  | unsent _ =>
    refine .cons ?_ (eachCommand_nil _)
    rintro c sent ⟨⟩
    exact ⟨0, rfl, led_nil⟩
  | @stuck _ _ _ _ heard _ hheard =>
    refine .cons ?_ ?_
    · rintro c sent ⟨⟩
      exact ⟨0, rfl, led_nil⟩
    · rw [← List.append_nil heard]
      exact .append hheard.commands_eq (eachCommand_nil _)
  | next hsent hheard _ ih =>
    refine .cons ?_ (.append hheard.commands_eq ?_)
    · rintro c sent ⟨⟩
      exact ⟨0, rfl, led_nil⟩
    · -- One more exchange in front: the command at `i` is the one at `i + 1` now.
      obtain ⟨r, hr, rfl⟩ := hheard.accepted_iff
      refine ih.mono ?_
      rintro before c ⟨i, hi, hled⟩
      exact ⟨i + 1, by simpa using hi, (hled.received hr).wrote _ hsent⟩

theorem Talk.commands_prefix {script : List (C × K)} {tr : List (Event C R)} {ok : Bool}
    (h : Talk accepts script tr ok) : commands tr <+: script.map Prod.fst := by
  induction h with
  | done => exact List.prefix_refl _
  | unsent _ => simp
  | stuck _ hheard => simp [hheard.commands_eq]
  | next _ hheard _ ih => simpa [hheard.commands_eq] using ih

theorem Talk.commands_eq {script : List (C × K)} {tr : List (Event C R)}
    (h : Talk accepts script tr true) : commands tr = script.map Prod.fst := by
  generalize hok : true = ok at h
  induction h with
  | done => rfl
  | unsent _ => cases hok
  | stuck _ _ => cases hok
  | next _ hheard _ ih => simp [hheard.commands_eq, ih hok]

/-- **Success.** The script comes to its end exactly when no write failed and the replies are those
that it asks for. -/
theorem Talk.ok_iff {script : List (C × K)} {tr : List (Event C R)} {ok : Bool}
    (h : Talk accepts script tr ok) :
    ok = true ↔ (∀ c sent, .wrote c sent ∈ tr → 0 ≤ sent) ∧
      List.Forall₂ accepts (script.map Prod.snd) (replies tr) := by
  induction h with
  | done => simp
  | @unsent c k script sent hsent =>
    refine iff_of_false (by simp) ?_
    rintro ⟨hw, -⟩
    exact absurd (hw c sent (by simp)) (by omega)
  | stuck _ hheard =>
    refine iff_of_false (by simp) ?_
    rintro ⟨-, hr⟩
    cases hheard with
    | broken hk =>
      simp only [replies_wrote, replies_broken, replies_received, List.map_cons,
        List.forall₂_cons] at hr
      exact hk hr.1
    | refused hk =>
      simp only [replies_wrote, replies_received, List.map_cons, List.forall₂_cons] at hr
      exact hk hr.1
  | next hsent hheard _ ih =>
    obtain ⟨r, hr, rfl⟩ := hheard.accepted_iff
    rw [ih]
    simp only [List.mem_cons, List.map_cons, replies_wrote, List.singleton_append,
      replies_received, List.forall₂_cons, hr, true_and]
    refine and_congr_left' ⟨fun hw c sent hmem => ?_, fun hw c sent hmem => ?_⟩
    · rcases hmem with heq | heq | hmem
      · obtain ⟨-, rfl⟩ : c = _ ∧ sent = _ := by simpa using heq
        exact hsent
      · cases heq
      · exact hw c sent hmem
    · exact hw c sent (Or.inr (Or.inr hmem))

theorem Talk.not_broken {script : List (C × K)} {tr : List (Event C R)}
    (h : Talk accepts script tr true) : .broken ∉ tr := by
  generalize hok : true = ok at h
  induction h with
  | done => simp
  | unsent _ => cases hok
  | stuck _ _ => cases hok
  | next _ hheard _ ih =>
    obtain ⟨r, _, rfl⟩ := hheard.accepted_iff
    simpa using ih hok

/-! ## With a greeting -/

variable (accepts) in
/-- The other side speaks first, when there is one. -/
inductive Conversation (k : K) (script : List (C × K)) : List (Event C R) → Bool → Prop where
  | nobody : Conversation k script [] false
  | unwelcome {heard : List (Event C R)} : Hears accepts k heard false →
      Conversation k script heard false
  | welcome {heard tr : List (Event C R)} {ok : Bool} : Hears accepts k heard true →
      Talk accepts script tr ok → Conversation k script (heard ++ tr) ok

namespace Conversation

variable {k : K} {script : List (C × K)} {tr : List (Event C R)} {ok : Bool}

theorem eachCommand (h : Conversation accepts k script tr ok) :
    EachCommand (fun before c => ∃ i, (script.map Prod.fst)[i]? = some c ∧
      Led accepts ((script.map Prod.fst).take i) ((k :: script.map Prod.snd).take (i + 1))
        before) tr := by
  cases h with
  | nobody => exact eachCommand_nil _
  | unwelcome hheard =>
    rw [← List.append_nil tr]
    exact .append hheard.commands_eq (eachCommand_nil _)
  | welcome hheard htalk =>
    obtain ⟨r, hr, rfl⟩ := hheard.accepted_iff
    refine .append rfl (htalk.eachCommand.mono ?_)
    rintro before c ⟨i, hi, hled⟩
    exact ⟨i, hi, hled.received hr⟩

theorem commands_prefix (h : Conversation accepts k script tr ok) :
    commands tr <+: script.map Prod.fst := by
  cases h with
  | nobody => exact List.nil_prefix
  | unwelcome hheard => rw [hheard.commands_eq]; exact List.nil_prefix
  | welcome hheard htalk =>
    rw [commands_append, hheard.commands_eq, List.nil_append]
    exact htalk.commands_prefix

theorem not_broken (h : Conversation accepts k script tr true) : .broken ∉ tr := by
  generalize hok : true = ok at h
  cases h with
  | nobody => cases hok
  | unwelcome _ => cases hok
  | welcome hheard htalk =>
    obtain ⟨r, _, rfl⟩ := hheard.accepted_iff
    subst hok
    simpa using htalk.not_broken

end Conversation

end Lib.Dialogue
