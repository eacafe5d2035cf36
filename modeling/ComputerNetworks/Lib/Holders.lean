import Mathlib.Data.List.Perm.Basic

/-!
# Resources with one holder

Who holds which of the resources that are open. A resource comes in, changes hands and goes, and at all
times it has one holder.
-/

universe u v

namespace Lib

variable {η : Type u} {ρ : Type v} {isOpen isOpen' : ρ → Prop} {holds holds' : η → ρ → Prop}

/-- Each open resource has one holder, and nothing else is held. -/
structure OneHolder (isOpen : ρ → Prop) (holds : η → ρ → Prop) : Prop where
  held : ∀ {r}, isOpen r → ∃ h, holds h r
  isOpen : ∀ {h r}, holds h r → isOpen r
  unique : ∀ {h k r}, holds h r → holds k r → h = k

namespace OneHolder

theorem existsUnique (H : OneHolder isOpen holds) {r : ρ} (hr : isOpen r) : ∃! h, holds h r := by
  obtain ⟨h, hh⟩ := H.held hr
  exact ⟨h, hh, fun k hk => H.unique hk hh⟩

theorem congr (H : OneHolder isOpen holds) (hopen : ∀ r, isOpen' r ↔ isOpen r)
    (hholds : ∀ h r, holds' h r ↔ holds h r) : OneHolder isOpen' holds' where
  held hr := by
    obtain ⟨h, hh⟩ := H.held ((hopen _).mp hr)
    exact ⟨h, (hholds _ _).mpr hh⟩
  isOpen hh := (hopen _).mpr (H.isOpen ((hholds _ _).mp hh))
  unique hh hk := H.unique ((hholds _ _).mp hh) ((hholds _ _).mp hk)

theorem enter (H : OneHolder isOpen holds) (h : η) {r : ρ} (hr : ¬isOpen r)
    (hopen : ∀ x, isOpen' x ↔ x = r ∨ isOpen x)
    (hholds : ∀ k x, holds' k x ↔ (k = h ∧ x = r) ∨ holds k x) : OneHolder isOpen' holds' where
  held {x} hx := by
    rcases (hopen x).mp hx with rfl | hx
    · exact ⟨h, (hholds _ _).mpr (.inl ⟨rfl, rfl⟩)⟩
    · obtain ⟨k, hk⟩ := H.held hx
      exact ⟨k, (hholds _ _).mpr (.inr hk)⟩
  isOpen {k x} hk := by
    rcases (hholds k x).mp hk with ⟨-, rfl⟩ | hk
    · exact (hopen _).mpr (.inl rfl)
    · exact (hopen _).mpr (.inr (H.isOpen hk))
  unique {k l x} hk hl := by
    rcases (hholds k x).mp hk with ⟨rfl, rfl⟩ | hk <;>
      rcases (hholds l x).mp hl with ⟨rfl, hx⟩ | hl
    · rfl
    · exact absurd (H.isOpen hl) hr
    · exact absurd (H.isOpen hk) (hx ▸ hr)
    · exact H.unique hk hl

theorem pass (H : OneHolder isOpen holds) {h k : η} {r : ρ} (hr : holds h r)
    (hopen : ∀ x, isOpen' x ↔ isOpen x)
    (hholds : ∀ l x, holds' l x ↔ (l = k ∧ x = r) ∨ (x ≠ r ∧ holds l x)) :
    OneHolder isOpen' holds' where
  held {x} hx := by
    by_cases hxr : x = r
    · exact ⟨k, (hholds _ _).mpr (.inl ⟨rfl, hxr⟩)⟩
    · obtain ⟨l, hl⟩ := H.held ((hopen x).mp hx)
      exact ⟨l, (hholds _ _).mpr (.inr ⟨hxr, hl⟩)⟩
  isOpen {l x} hl := by
    rcases (hholds l x).mp hl with ⟨-, rfl⟩ | ⟨-, hl⟩
    · exact (hopen _).mpr (H.isOpen hr)
    · exact (hopen _).mpr (H.isOpen hl)
  unique {l m x} hl hm := by
    rcases (hholds l x).mp hl with ⟨rfl, hx⟩ | ⟨hx, hl⟩ <;>
      rcases (hholds m x).mp hm with ⟨rfl, hx'⟩ | ⟨hx', hm⟩
    · rfl
    · exact absurd hx hx'
    · exact absurd hx' hx
    · exact H.unique hl hm

theorem leave (H : OneHolder isOpen holds) {r : ρ} (hopen : ∀ x, isOpen' x ↔ x ≠ r ∧ isOpen x)
    (hholds : ∀ k x, holds' k x ↔ x ≠ r ∧ holds k x) : OneHolder isOpen' holds' where
  held {x} hx := by
    obtain ⟨hxr, hx⟩ := (hopen x).mp hx
    obtain ⟨k, hk⟩ := H.held hx
    exact ⟨k, (hholds _ _).mpr ⟨hxr, hk⟩⟩
  isOpen {k x} hk := by
    obtain ⟨hxr, hk⟩ := (hholds k x).mp hk
    exact (hopen _).mpr ⟨hxr, H.isOpen hk⟩
  unique hk hl := H.unique ((hholds _ _).mp hk).2 ((hholds _ _).mp hl).2

end OneHolder

end Lib
