import Mathlib.Data.List.Perm.Basic
import StrategyDesk.Csv.Candles
import StrategyDesk.Proofs.Calendar.Order

/-!
This module contains how candles are brought into order. They come out strictly increasing in time,
and for each time it is the first candle of that time that is kept.
-/

namespace StrategyDesk
namespace Csv

variable {c d : Candle Float} {cs ds : List (Candle Float)} {t : Instant}

theorem dropWhile_eq_filter (hcs : cs.Pairwise fun c d => c.time < d.time)
    (ht : ∀ c ∈ cs, t ≤ c.time) :
    cs.dropWhile (fun c => c.time == t) = cs.filter fun c => c.time != t := by
  induction cs with
  | nil => rfl
  | cons c cs ih =>
    rw [List.pairwise_cons] at hcs
    rw [List.forall_mem_cons] at ht
    by_cases hc : c.time = t
    . rw [List.dropWhile_cons_of_pos (by simp [hc]), List.filter_cons_of_neg (by simp [hc])]
      exact ih hcs.2 ht.2
    . rw [List.dropWhile_cons_of_neg (by simp [hc]), List.filter_cons_of_pos (by simp [hc])]
      congr 1
      symm
      rw [List.filter_eq_self]
      intro d hd
      have hlt := Instant.lt_of_le_of_lt ht.1 (hcs.1 d hd)
      simp only [bne_iff_ne]
      rintro rfl
      exact Instant.lt_irrefl _ hlt

/-! ## The first of each time -/

section FirstOfEachTime

/-- What is kept of candles in order: the first of each time, each time once. -/
structure Thinned (cs ds : List (Candle Float)) : Prop where
  pairwise : ds.Pairwise fun c d => c.time < d.time
  mem_iff : ∀ c, c ∈ ds ↔ cs.find? (fun d => d.time == c.time) = some c

theorem Thinned.subset (h : Thinned cs ds) (hc : c ∈ ds) : c ∈ cs :=
  List.mem_of_find?_eq_some ((h.mem_iff c).mp hc)

theorem Thinned.cons (h : Thinned cs ds) (hc : ∀ d ∈ cs, c.time ≤ d.time) :
    Thinned (c :: cs) (c :: ds.dropWhile fun d => d.time == c.time) := by
  have hle : ∀ d ∈ ds, c.time ≤ d.time := fun d hd => hc d (h.subset hd)
  rw [dropWhile_eq_filter h.pairwise hle]
  constructor
  . rw [List.pairwise_cons]
    refine ⟨?_, h.pairwise.filter _⟩
    intro d hd
    rw [List.mem_filter, bne_iff_ne] at hd
    exact Instant.lt_of_le_of_ne (hle d hd.1) hd.2.symm
  . intro d
    rw [List.mem_cons, List.mem_filter, h.mem_iff, bne_iff_ne]
    by_cases htime : c.time = d.time
    . rw [List.find?_cons_of_pos (by simp [htime])]
      simp [htime, eq_comm]
    . rw [List.find?_cons_of_neg (by simp [htime])]
      have hne : d ≠ c := by
        rintro rfl
        exact htime rfl
      simp [hne, Ne.symm htime]

theorem thinned_firstOfEachTime (hcs : cs.Pairwise fun c d => c.time ≤ d.time) :
    Thinned cs (firstOfEachTime cs) := by
  induction cs with
  | nil => exact ⟨.nil, by simp [firstOfEachTime]⟩
  | cons c cs ih =>
    rw [List.pairwise_cons] at hcs
    exact (ih hcs.2).cons hcs.1

end FirstOfEachTime

/-! ## Order -/

def notAfter (c d : Candle Float) : Bool :=
  decide (c.time ≤ d.time)

theorem notAfter_trans (b c d : Candle Float) (hbc : notAfter b c = true) (hcd : notAfter c d = true) :
    notAfter b d = true := by
  simp only [notAfter, decide_eq_true_eq] at *
  exact Instant.le_trans hbc hcd

theorem notAfter_total (c d : Candle Float) : (notAfter c d || notAfter d c) = true := by
  simp only [notAfter, Bool.or_eq_true, decide_eq_true_eq]
  apply Instant.le_total

theorem pairwise_mergeSort (cs : List (Candle Float)) :
    (cs.mergeSort notAfter).Pairwise fun c d => c.time ≤ d.time := by
  have hsorted := List.pairwise_mergeSort notAfter_trans notAfter_total cs
  simpa only [notAfter, decide_eq_true_eq] using hsorted

theorem find?_mergeSort (t : Instant) (cs : List (Candle Float)) :
    (cs.mergeSort notAfter).find? (fun c => c.time == t) = cs.find? fun c => c.time == t := by
  induction cs with
  | nil => rw [List.mergeSort_nil]
  | cons c cs ih =>
    obtain ⟨ahead, behind, hcons, hrest, hahead⟩ :=
      List.mergeSort_cons notAfter_trans notAfter_total c cs
    rw [hrest, List.find?_append] at ih
    rw [hcons, List.find?_append]
    by_cases hc : c.time = t
    . have hnone : ahead.find? (fun d => d.time == t) = none := by
        rw [List.find?_eq_none]
        intro d hd
        have hafter := hahead d hd
        simp only [notAfter, Bool.not_eq_true', decide_eq_false_iff_not, Instant.not_le] at hafter
        rw [beq_iff_eq]
        rintro rfl
        rw [hc] at hafter
        exact Instant.lt_irrefl _ hafter
      rw [hnone, Option.none_or, List.find?_cons_of_pos (by simp [hc]),
        List.find?_cons_of_pos (by simp [hc])]
    . rw [List.find?_cons_of_neg (by simp [hc]), List.find?_cons_of_neg (by simp [hc])]
      exact ih

theorem thinned_inOrder (cs : List (Candle Float)) : Thinned cs (inOrder cs) := by
  have hthinned := thinned_firstOfEachTime (pairwise_mergeSort cs)
  refine ⟨hthinned.pairwise, ?_⟩
  intro c
  rw [← find?_mergeSort]
  exact hthinned.mem_iff c

theorem eq_of_mem_iff (hcs : cs.Pairwise fun c d => c.time < d.time)
    (hds : ds.Pairwise fun c d => c.time < d.time) (h : ∀ c, c ∈ cs ↔ c ∈ ds) : cs = ds := by
  have hne : ∀ c d : Candle Float, c.time < d.time → c ≠ d := by
    rintro c _ hlt rfl
    exact Instant.lt_irrefl _ hlt
  have hperm : cs.Perm ds :=
    (List.perm_ext_iff_of_nodup (hcs.imp (hne _ _)) (hds.imp (hne _ _))).mpr h
  apply hperm.eq_of_pairwise _ hcs hds
  intro c d _ _ hlt hgt
  exact absurd (Instant.le_of_lt hgt) (Instant.not_le.mpr hlt)

theorem inOrder_filter (p : Instant → Bool) (cs : List (Candle Float)) :
    inOrder (cs.filter fun c => p c.time) = (inOrder cs).filter fun c => p c.time := by
  have hall := thinned_inOrder cs
  have hsome := thinned_inOrder (cs.filter fun c => p c.time)
  apply eq_of_mem_iff hsome.pairwise (hall.pairwise.filter _)
  intro c
  have hfilter : (cs.filter fun c => p c.time).find? (fun d => d.time == c.time) =
      cs.find? fun d => p c.time && d.time == c.time := by
    rw [List.find?_filter]
    congr 1
    funext d
    by_cases htime : d.time = c.time
    . simp [htime]
    . simp [htime]
  rw [hsome.mem_iff, hfilter, List.mem_filter, hall.mem_iff]
  cases p c.time with
  | true => simp
  | false =>
    have hnone : cs.find? (fun _ => false) = none := by
      rw [List.find?_eq_none]
      simp
    simp [hnone]

end Csv
end StrategyDesk
