import Mathlib.Data.Set.Function
import Mathlib.Logic.Function.Basic

/-!
# Parts that share a store

A system has parts, by name, and a store that they share, which has a value for each key. A part
has a footprint, the keys that it is about. What holds of a part depends on no other key, and its
steps change the value of no other key (`Footed`). If no two footprints meet, each part can be
looked at alone: `Separate` is what then holds of all of them together, whatever the order in
which they take their steps, and of the keys that are in no footprint.

## What is proved

* `Separate.step`: a step of a part keeps that.
* `Separate.add`: so does a new part, in a footprint of its own.
* `Separate.change`: so does a change of the parts that is not about the store.
-/

namespace Library

open Set

universe u v w x y

variable {ι : Type u} {σ : Type v} {τ : Type w} {κ : Type x} {ν : Type y}

/-- How the parts behave: `read` gives the values in a store, `foot` the footprint of a part, `inv` what holds
of a part and the store, and `move` is a step of a part with the store. -/
structure Footed (read : τ → κ → ν) (foot : σ → Set κ) (inv : σ → τ → Prop) (move : σ → τ → σ → τ → Prop) : Prop where
  /-- A step keeps what holds. -/
  kept : ∀ {p p' m m'}, inv p m → move p m p' m' → inv p' m'
  /-- It stays in the footprint. -/
  foot_eq : ∀ {p p' m m'}, inv p m → move p m p' m' → foot p' = foot p
  outside : ∀ {p p' m m'}, inv p m → move p m p' m' → EqOn (read m') (read m) (foot p)ᶜ
  /-- What holds of a part is about its footprint. -/
  congr : ∀ {p m m'}, inv p m → EqOn (read m') (read m) (foot p) → inv p m'

/-- All parts are as they should be, no two footprints meet, and the other keys have the values that they had in `m₀`. -/
structure Separate (read : τ → κ → ν) (foot : σ → Set κ) (inv : σ → τ → Prop) (m₀ : τ) (part : ι → Option σ) (m : τ) : Prop where
  holds : ∀ {i p}, part i = some p → inv p m
  disjoint : ∀ {i j p q}, i ≠ j → part i = some p → part j = some q → ∀ k ∈ foot p, k ∉ foot q
  outside : ∀ {k}, (∀ i p, part i = some p → k ∉ foot p) → read m k = read m₀ k

variable {read : τ → κ → ν} {foot : σ → Set κ} {inv : σ → τ → Prop} {move : σ → τ → σ → τ → Prop} {m₀ m m' : τ}
  {part part' : ι → Option σ} {i : ι} {p : σ}

/-- There are no parts at first. -/
theorem separate_of_forall_eq_none (h : ∀ i, part i = none) : Separate read foot inv m₀ part m₀ where
  holds hi := by rw [h] at hi; cases hi
  disjoint _ hi := by rw [h] at hi; cases hi
  outside _ := rfl

/-- A part takes the place of one with the same footprint, or of none, and the others are left alone. -/
theorem Separate.replace (hF : Footed read foot inv move) (h : Separate read foot inv m₀ part m) (hpart : part' i = some p)
    (hothers : ∀ j, j ≠ i → part' j = part j) (hinv : inv p m') (hsame : ∀ q, part i = some q → foot q = foot p)
    (hapart : ∀ j q, j ≠ i → part j = some q → ∀ k ∈ foot q, k ∉ foot p) (hout : EqOn (read m') (read m) (foot p)ᶜ) :
    Separate read foot inv m₀ part' m' where
  holds := by
    intro j q hj
    by_cases hij : j = i
    · subst hij
      obtain rfl := Option.some.inj (hpart.symm.trans hj)
      exact hinv
    · rw [hothers j hij] at hj
      exact hF.congr (h.holds hj) (hout.mono (hapart j q hij hj))
  disjoint := by
    intro j k q r hjk hj hk
    by_cases hij : j = i
    · subst hij
      obtain rfl := Option.some.inj (hpart.symm.trans hj)
      rw [hothers k (Ne.symm hjk)] at hk
      exact fun key hp hr => hapart k r (Ne.symm hjk) hk key hr hp
    · rw [hothers j hij] at hj
      by_cases hik : k = i
      · subst hik
        obtain rfl := Option.some.inj (hpart.symm.trans hk)
        exact hapart j q hij hj
      · rw [hothers k hik] at hk
        exact h.disjoint hjk hj hk
  outside := by
    intro k hk
    rw [hout (hk i p hpart)]
    refine h.outside fun j q hj hmem => ?_
    by_cases hij : j = i
    · subst hij
      exact hk j p hpart (hsame q hj ▸ hmem)
    · exact hk j q (by rw [hothers j hij]; exact hj) hmem

/-- **A step of a part.** -/
theorem Separate.step {p' : σ} (hF : Footed read foot inv move) (h : Separate read foot inv m₀ part m) (hi : part i = some p)
    (hmove : move p m p' m') (hpart : part' i = some p') (hothers : ∀ j, j ≠ i → part' j = part j) :
    Separate read foot inv m₀ part' m' := by
  have hp := h.holds hi
  have hfoot := hF.foot_eq hp hmove
  refine h.replace hF hpart hothers (hF.kept hp hmove) ?_ ?_ ?_
  · intro q hq
    obtain rfl := Option.some.inj (hi.symm.trans hq)
    exact hfoot.symm
  · intro j q hij hj
    rw [hfoot]
    exact h.disjoint hij hj hi
  · rw [hfoot]
    exact hF.outside hp hmove

/-- **A new part.** -/
theorem Separate.add (hF : Footed read foot inv move) (h : Separate read foot inv m₀ part m) (hi : part i = none)
    (hpart : part' i = some p) (hothers : ∀ j, j ≠ i → part' j = part j) (hinv : inv p m')
    (hapart : ∀ j q, part j = some q → ∀ k ∈ foot q, k ∉ foot p) (hout : EqOn (read m') (read m) (foot p)ᶜ) :
    Separate read foot inv m₀ part' m' :=
  h.replace hF hpart hothers hinv (by rw [hi]; rintro q ⟨⟩) (fun j q _ => hapart j q) hout

/-- A store with the same values is as good. -/
theorem Separate.congr (hF : Footed read foot inv move) (h : Separate read foot inv m₀ part m) (hread : read m' = read m) :
    Separate read foot inv m₀ part m' where
  holds hi := hF.congr (h.holds hi) fun k _ => congrFun hread k
  disjoint := h.disjoint
  outside hk := (congrFun hread _).trans (h.outside hk)

/-- **A change of the parts**, which leaves them their footprints and what holds of them. -/
theorem Separate.change (h : Separate read foot inv m₀ part m)
    (hback : ∀ j q', part' j = some q' → ∃ q, part j = some q ∧ foot q' = foot q ∧ (inv q m → inv q' m))
    (hforth : ∀ j q, part j = some q → ∃ q', part' j = some q') : Separate read foot inv m₀ part' m where
  holds := by
    intro j q' hj
    obtain ⟨q, hq, -, hinv⟩ := hback j q' hj
    exact hinv (h.holds hq)
  disjoint := by
    intro j k q' r' hjk hj hk
    obtain ⟨q, hq, hfoot, -⟩ := hback j q' hj
    obtain ⟨r, hr, hfoot', -⟩ := hback k r' hk
    rw [hfoot, hfoot']
    exact h.disjoint hjk hq hr
  outside := by
    intro k hk
    refine h.outside fun j q hj hmem => ?_
    obtain ⟨q', hq'⟩ := hforth j q hj
    obtain ⟨r, hr, hfoot, -⟩ := hback j q' hq'
    obtain rfl := Option.some.inj (hj.symm.trans hr)
    exact hk j q' hq' (hfoot ▸ hmem)

end Library
