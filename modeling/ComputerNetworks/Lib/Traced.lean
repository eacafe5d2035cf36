import ComputerNetworks.Lib.Checked
import Mathlib.Tactic.Common

/-!
# Runs that leave a trace

A computation that acts on its surroundings and may stop early. Its trace is the list of what it has
done, newest first, and the surroundings may answer by all of it.
-/

universe u v w

namespace Lib

/-- From a trace to an outcome, with the trace that it leaves. -/
def Traced (τ : Type w) (ε : Type v) (α : Type u) := List τ → Except ε α × List τ

namespace Traced

variable {τ : Type w} {ε : Type v} {α β σ ρ : Type u}

instance : Monad (Traced τ ε) where
  pure a := fun tr => (.ok a, tr)
  bind m f := fun tr =>
    match m tr with
    | (.ok a, tr') => f a tr'
    | (.error e, tr') => (.error e, tr')

def log (event : τ) : Traced τ ε PUnit := fun tr => (.ok ⟨⟩, event :: tr)

/-- What the surroundings say, who know the trace. -/
def look (f : List τ → α) : Traced τ ε α := fun tr => (.ok (f tr), tr)

def stop (e : ε) : Traced τ ε α := fun tr => (.error e, tr)

def ofExcept {δ : Type*} (f : δ → ε) : Except δ α → Traced τ ε α
  | .ok a => pure a
  | .error d => stop (f d)

/-- Up to `n` turns of a loop. A turn is told how many are left after it, and `done` is what the
loop comes to when none is. -/
def upTo (turn : Nat → σ → Traced τ ε (Turn σ ρ)) (done : σ → ρ) : Nat → σ → Traced τ ε ρ
  | 0, s => pure (done s)
  | n + 1, s => do
    match ← turn n s with
    | .next t => upTo turn done n t
    | .leave r => pure r

theorem bind_apply (m : Traced τ ε α) (f : α → Traced τ ε β) (tr : List τ) :
    (m >>= f) tr =
      match m tr with
      | (.ok a, tr') => f a tr'
      | (.error e, tr') => (.error e, tr') := rfl

theorem log_bind (event : τ) (f : PUnit → Traced τ ε β) (tr : List τ) :
    (log event >>= f) tr = f ⟨⟩ (event :: tr) := rfl

theorem look_bind (g : List τ → α) (f : α → Traced τ ε β) (tr : List τ) :
    (look g >>= f) tr = f (g tr) tr := rfl

theorem bind_error {m : Traced τ ε α} {e : ε} {tr : List τ} (h : (m tr).1 = .error e)
    (f : α → Traced τ ε β) : ((m >>= f) tr).1 = .error e := by
  rw [bind_apply]
  match m tr, h with
  | (.error _, tr'), rfl => rfl

theorem ofExcept_ok {δ : Type*} (f : δ → ε) (a : α) :
    ofExcept f (.ok a) = (pure a : Traced τ ε α) := rfl

theorem pure_bind (a : α) (f : α → Traced τ ε β) : pure a >>= f = f a := rfl

/-! ## Postconditions -/

/-- From the trace `tr`, the run comes to an outcome and a trace of which `Q` holds. -/
def Ends (m : Traced τ ε α) (tr : List τ) (Q : Except ε α → List τ → Prop) : Prop :=
  Q (m tr).1 (m tr).2

theorem Ends.mono {m : Traced τ ε α} {tr : List τ} {Q R : Except ε α → List τ → Prop}
    (h : Ends m tr Q) (hQR : ∀ r tr', Q r tr' → R r tr') : Ends m tr R :=
  hQR _ _ h

theorem ends_pure {a : α} {tr : List τ} {Q : Except ε α → List τ → Prop} (h : Q (.ok a) tr) :
    Ends (pure a) tr Q := h

/-- The rule of sequence: what the first part ends in is where the second starts. -/
theorem Ends.bind {m : Traced τ ε α} {f : α → Traced τ ε β} {tr : List τ}
    {R : Except ε α → List τ → Prop} {Q : Except ε β → List τ → Prop} (hm : Ends m tr R)
    (hok : ∀ a tr', R (.ok a) tr' → Ends (f a) tr' Q)
    (herror : ∀ e tr', R (.error e) tr' → Q (.error e) tr') : Ends (m >>= f) tr Q := by
  unfold Ends at hm ⊢
  rw [bind_apply]
  match m tr, hm with
  | (.ok a, tr'), hR => exact hok a tr' hR
  | (.error e, tr'), hR => exact herror e tr' hR

theorem ends_log {event : τ} {f : PUnit → Traced τ ε β} {tr : List τ}
    {Q : Except ε β → List τ → Prop} (h : Ends (f ⟨⟩) (event :: tr) Q) :
    Ends (log event >>= f) tr Q := h

theorem ends_look {g : List τ → α} {f : α → Traced τ ε β} {tr : List τ}
    {Q : Except ε β → List τ → Prop} (h : Ends (f (g tr)) tr Q) : Ends (look g >>= f) tr Q := h

/-- The loop rule: an invariant of the state, the trace and the turns that are left. -/
theorem Ends.upTo {turn : Nat → σ → Traced τ ε (Turn σ ρ)} {done : σ → ρ}
    {I : Nat → σ → List τ → Prop} {Q : Except ε ρ → List τ → Prop}
    (hturn : ∀ n s tr, I (n + 1) s tr → Ends (turn n s) tr fun r tr' =>
      match r with
      | .ok (.next t) => I n t tr'
      | .ok (.leave r) => Q (.ok r) tr'
      | .error e => Q (.error e) tr')
    (hdone : ∀ s tr, I 0 s tr → Q (.ok (done s)) tr) (n : Nat) :
    ∀ s tr, I n s tr → Ends (upTo turn done n s) tr Q := by
  induction n with
  | zero => intro s tr hI; exact ends_pure (hdone s tr hI)
  | succ n ih =>
    intro s tr hI
    refine (hturn n s tr hI).bind ?_ fun e tr' h => h
    intro r tr' hr
    cases r with
    | next t => exact ih t tr' hr
    | leave r => exact ends_pure hr

/-! ## Steps with a reason -/

/-- Each event stands in the relation `J` to the events before it. -/
def Each (J : τ → List τ → Prop) (tr : List τ) : Prop := ∀ e before, e :: before <:+ tr → J e before

theorem each_nil (J : τ → List τ → Prop) : Each J [] := fun _ _ h => absurd h.length_le (by simp)

theorem Each.cons {J : τ → List τ → Prop} {e : τ} {tr : List τ} (h : Each J tr) (he : J e tr) :
    Each J (e :: tr) := by
  intro e' before hsuffix
  rcases List.suffix_cons_iff.mp hsuffix with heq | hsuffix
  · obtain ⟨rfl, rfl⟩ := List.cons.inj heq
    exact he
  · exact h e' before hsuffix

/-! ## Runs that are cut off -/

def Grows (m : Traced τ ε α) : Prop := ∀ tr, tr <:+ (m tr).2

/-- `m` is `m'`, or is cut off by the error `e` on the way of it. -/
structure Below (e : ε) (m m' : Traced τ ε α) : Prop where
  eq_or_cut : ∀ tr, m tr = m' tr ∨ (m tr).1 = .error e ∧ (m tr).2 <:+ (m' tr).2
  grows : Grows m'

theorem Below.refl (e : ε) {m : Traced τ ε α} (h : Grows m) : Below e m m :=
  ⟨fun _ => Or.inl rfl, h⟩

theorem Below.stop {e : ε} {m : Traced τ ε α} (h : Grows m) : Below e (stop e) m :=
  ⟨fun tr => Or.inr ⟨rfl, h tr⟩, h⟩

theorem grows_pure (a : α) : Grows (pure a : Traced τ ε α) := fun _ => List.suffix_refl _

theorem grows_log (event : τ) : Grows (log event : Traced τ ε PUnit) :=
  fun _ => List.suffix_cons _ _

theorem grows_ofExcept {δ : Type*} (f : δ → ε) (x : Except δ α) :
    Grows (ofExcept f x : Traced τ ε α) := by
  cases x with
  | ok a => exact grows_pure a
  | error d => exact fun _ => List.suffix_refl _

theorem below_pure (e : ε) (a : α) : Below e (pure a : Traced τ ε α) (pure a) :=
  .refl e (grows_pure a)

theorem Grows.bind {m : Traced τ ε α} {f : α → Traced τ ε β} (hm : Grows m)
    (hf : ∀ a, Grows (f a)) : Grows (m >>= f) := by
  intro tr
  have htr := hm tr
  rw [bind_apply]
  match m tr, htr with
  | (.ok a, tr'), htr => exact htr.trans (hf a tr')
  | (.error e, tr'), htr => exact htr

theorem Below.bind {e : ε} {m m' : Traced τ ε α} {f f' : α → Traced τ ε β} (hm : Below e m m')
    (hf : ∀ a, Below e (f a) (f' a)) : Below e (m >>= f) (m' >>= f') := by
  refine ⟨fun tr => ?_, hm.grows.bind fun a => (hf a).grows⟩
  simp only [bind_apply]
  rcases hm.eq_or_cut tr with heq | ⟨herror, hsuffix⟩
  · rw [heq]
    match m' tr with
    | (.ok a, tr') => exact (hf a).eq_or_cut tr'
    | (.error e', tr') => exact Or.inl rfl
  · right
    match m tr, herror, hsuffix with
    | (.error _, tr'), rfl, hsuffix =>
      refine ⟨rfl, hsuffix.trans ?_⟩
      match m' tr with
      | (.ok a, tr'') => exact (hf a).grows tr''
      | (.error _, tr'') => exact List.suffix_refl _

theorem Below.upTo {e : ε} {turn turn' : Nat → σ → Traced τ ε (Turn σ ρ)} {done : σ → ρ}
    (hturn : ∀ n s, Below e (turn n s) (turn' n s)) (n : Nat) :
    ∀ s, Below e (upTo turn done n s) (upTo turn' done n s) := by
  induction n with
  | zero => intro s; exact below_pure e _
  | succ n ih =>
    intro s
    refine (hturn n s).bind fun r => ?_
    cases r with
    | next t => exact ih t
    | leave r => exact below_pure e r

end Traced

end Lib
