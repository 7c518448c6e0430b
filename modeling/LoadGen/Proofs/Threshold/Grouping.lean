/-
Thresholds by metric. Grouping thresholds by their metrics, each group in the order in which they stood, and writing the
groups one after another sorts them by metric and moves nothing else.

- `read_text`: a threshold that was read is read again from its metric and expression.
- `eq_of_forMetric`: a list in order of metrics is determined by its part for each metric.
- `flatMap_forMetric`: the parts for all metrics, in their order, are the stable sort.
- `groups_sorted`: sorting does not change the groups.
-/
import LoadGen.Proofs.Text.Blank
import LoadGen.Proofs.Text.Ordered
import LoadGen.Scenario.Document
import Mathlib.Data.List.Induction

namespace LoadGen

namespace Threshold

/-! ## Reading again -/

theorem read_eq_ok {metric expression : String} {t : Threshold} (h : read metric expression = .ok t) :
    t.metric = String.ofList (Text.trim metric.toList) ∧ t.expression = String.ofList (Text.trim expression.toList) ∧
      readCheck t.metric (Text.compact expression.toList) = .ok (t.target, t.check) := by
  simp only [read] at h
  split at h
  · rename_i target check hcheck
    cases h
    exact ⟨rfl, rfl, hcheck⟩
  · cases h

/-- a threshold that was read has no blanks around its texts, and is read from them again -/
theorem read_text {metric expression : String} {t : Threshold} (h : read metric expression = .ok t) :
    read t.metric t.expression = .ok t := by
  obtain ⟨hmetric, hexpression, hcheck⟩ := read_eq_ok h
  have hname : String.ofList (Text.trim t.metric.toList) = t.metric := by
    rw [hmetric, String.toList_ofList, Text.trim_trim]
  have hwhole : String.ofList (Text.trim t.expression.toList) = t.expression := by
    rw [hexpression, String.toList_ofList, Text.trim_trim]
  have hcompact : Text.compact t.expression.toList = Text.compact expression.toList := by
    rw [hexpression, String.toList_ofList, Text.compact_trim]
  unfold read
  simp only [hname, hwhole, hcompact, hcheck]

/-! ## The thresholds for a metric -/

/-- the thresholds for a metric, in their order -/
def forMetric (metric : String) (ts : List Threshold) : List Threshold :=
  ts.filter fun t => t.metric = metric

/-- thresholds in order of their metrics, those for one metric as they stood -/
def sorted (ts : List Threshold) : List Threshold :=
  ts.mergeSort fun a b => a.metric ≤ b.metric

variable {ts l r : List Threshold} {metric : String}

theorem mem_forMetric {t : Threshold} : t ∈ forMetric metric ts ↔ t ∈ ts ∧ t.metric = metric := by
  simp [forMetric]

theorem le_of_mem_forMetric {a b : Threshold} (ha : a ∈ forMetric metric ts) (hb : b ∈ forMetric metric ts) :
    a.metric ≤ b.metric := by
  have hmetric : a.metric = b.metric := (mem_forMetric.1 ha).2.trans (mem_forMetric.1 hb).2.symm
  exact hmetric ▸ String.le_refl a.metric

theorem forMetric_cons_self (t : Threshold) (ts : List Threshold) :
    forMetric t.metric (t :: ts) = t :: forMetric t.metric ts :=
  List.filter_cons_of_pos (by simp)

theorem forMetric_cons_ne {t : Threshold} (h : t.metric ≠ metric) : forMetric metric (t :: ts) = forMetric metric ts :=
  List.filter_cons_of_neg (by simpa using h)

/-- the first metric of a list in order is the least -/
theorem head_le {a b : Threshold} (hl : (a :: l).Pairwise fun a b => a.metric ≤ b.metric) (hb : b ∈ a :: l) :
    a.metric ≤ b.metric := by
  rcases List.mem_cons.1 hb with rfl | hb
  · exact String.le_refl _
  · exact (List.pairwise_cons.1 hl).1 b hb

/-- a list in order of metrics is determined by its part for each metric -/
theorem eq_of_forMetric (hl : l.Pairwise fun a b => a.metric ≤ b.metric)
    (hr : r.Pairwise fun a b => a.metric ≤ b.metric) (h : ∀ metric, forMetric metric l = forMetric metric r) : l = r := by
  induction l generalizing r with
  | nil =>
    cases r with
    | nil => rfl
    | cons b r =>
      have hb := h b.metric
      rw [forMetric_cons_self] at hb
      cases hb
  | cons a l ih =>
    cases r with
    | nil =>
      have ha := h a.metric
      rw [forMetric_cons_self] at ha
      cases ha
    | cons b r =>
      -- each head is in the other list too, so neither metric is before the other
      have hb : b ∈ forMetric b.metric (a :: l) := by
        rw [h, forMetric_cons_self]
        exact List.mem_cons_self
      have ha : a ∈ forMetric a.metric (b :: r) := by
        rw [← h, forMetric_cons_self]
        exact List.mem_cons_self
      have hmetric : a.metric = b.metric :=
        String.le_antisymm (head_le hl (mem_forMetric.1 hb).1) (head_le hr (mem_forMetric.1 ha).1)
      have hhead := h a.metric
      rw [forMetric_cons_self, hmetric, forMetric_cons_self] at hhead
      obtain ⟨rfl, htail⟩ := List.cons.inj hhead
      refine congrArg (a :: ·) (ih (List.pairwise_cons.1 hl).2 (List.pairwise_cons.1 hr).2 fun metric => ?_)
      by_cases hm : a.metric = metric
      · rw [← hm]
        exact htail
      · have hboth := h metric
        rwa [forMetric_cons_ne hm, forMetric_cons_ne hm] at hboth

/-! ## The stable sort -/

theorem le_trans_metric (a b c : Threshold) (hab : decide (a.metric ≤ b.metric) = true)
    (hbc : decide (b.metric ≤ c.metric) = true) : decide (a.metric ≤ c.metric) = true :=
  decide_eq_true (String.le_trans (of_decide_eq_true hab) (of_decide_eq_true hbc))

theorem le_total_metric (a b : Threshold) : (decide (a.metric ≤ b.metric) || decide (b.metric ≤ a.metric)) = true := by
  simpa using String.le_total a.metric b.metric

theorem pairwise_sorted (ts : List Threshold) : (sorted ts).Pairwise fun a b => a.metric ≤ b.metric := by
  have hsorted := List.pairwise_mergeSort le_trans_metric le_total_metric ts
  exact hsorted.imp fun hle => of_decide_eq_true hle

theorem perm_sorted (ts : List Threshold) : (sorted ts).Perm ts :=
  List.mergeSort_perm ts _

/-- sorting keeps the thresholds for one metric as they stood -/
theorem forMetric_sorted (metric : String) (ts : List Threshold) :
    forMetric metric (sorted ts) = forMetric metric ts := by
  have hequal : (forMetric metric ts).Pairwise fun a b => decide (a.metric ≤ b.metric) = true := by
    exact List.pairwise_of_forall_mem_list fun a ha b hb => decide_eq_true (le_of_mem_forMetric ha hb)
  have hsub : (forMetric metric ts).Sublist (sorted ts) :=
    List.sublist_mergeSort le_trans_metric le_total_metric hequal List.filter_sublist
  -- the part of the sorted list holds the part of the list, and is as long
  have hfilter := hsub.filter fun t => t.metric = metric
  have hself : (forMetric metric ts).filter (fun t => t.metric = metric) = forMetric metric ts := by
    simp [forMetric]
  rw [hself] at hfilter
  have hlength := ((perm_sorted ts).filter fun t => t.metric = metric).length_eq
  exact (hfilter.eq_of_length hlength.symm).symm

theorem forMetric_append (metric : String) (l r : List Threshold) :
    forMetric metric (l ++ r) = forMetric metric l ++ forMetric metric r :=
  List.filter_append ..

theorem forMetric_forMetric (metric m : String) (ts : List Threshold) :
    forMetric metric (forMetric m ts) = if metric = m then forMetric metric ts else [] := by
  by_cases hm : metric = m
  · simp [forMetric, hm]
  · rw [if_neg hm, forMetric, List.filter_eq_nil_iff]
    intro t ht hmetric
    exact hm ((of_decide_eq_true hmetric).symm.trans (mem_forMetric.1 ht).2)

theorem forMetric_flatMap {metrics : List String} (hm : metrics.Nodup) (metric : String) :
    forMetric metric (metrics.flatMap fun m => forMetric m ts) =
      if metric ∈ metrics then forMetric metric ts else [] := by
  induction metrics with
  | nil => rfl
  | cons m metrics ih =>
    obtain ⟨hnew, hrest⟩ := List.nodup_cons.1 hm
    rw [List.flatMap_cons, forMetric_append, forMetric_forMetric, ih hrest]
    by_cases heq : metric = m
    · simp [heq, hnew]
    · simp [heq]

theorem pairwise_flatMap {metrics : List String} (hm : metrics.Pairwise (· < ·)) :
    (metrics.flatMap fun m => forMetric m ts).Pairwise fun a b => a.metric ≤ b.metric := by
  induction metrics with
  | nil => exact List.Pairwise.nil
  | cons m metrics ih =>
    obtain ⟨hlt, hrest⟩ := List.pairwise_cons.1 hm
    rw [List.flatMap_cons, List.pairwise_append]
    have hsame : (forMetric m ts).Pairwise fun a b => a.metric ≤ b.metric :=
      List.pairwise_of_forall_mem_list fun a ha b hb => le_of_mem_forMetric ha hb
    refine ⟨hsame, ih hrest, fun a ha b hb => ?_⟩
    obtain ⟨k, hk, hb⟩ := List.mem_flatMap.1 hb
    rw [(mem_forMetric.1 ha).2, (mem_forMetric.1 hb).2]
    exact String.not_lt.1 fun hgt => String.lt_irrefl _ (String.lt_trans hgt (hlt k hk))

/-- the parts for all metrics, in order of the metrics, are the stable sort -/
theorem flatMap_forMetric {metrics : List String} (hm : metrics.Pairwise (· < ·))
    (hall : ∀ t ∈ ts, t.metric ∈ metrics) : (metrics.flatMap fun m => forMetric m ts) = sorted ts := by
  have hnodup : metrics.Nodup := hm.imp fun {a b} (hlt : a < b) (heq : a = b) => String.lt_irrefl b (heq ▸ hlt)
  refine eq_of_forMetric (pairwise_flatMap hm) (pairwise_sorted ts) fun metric => ?_
  rw [forMetric_flatMap hnodup, forMetric_sorted]
  split
  · rfl
  · rename_i hnot
    refine (List.filter_eq_nil_iff.2 fun t ht hmetric => hnot ?_).symm
    rw [← of_decide_eq_true hmetric]
    exact hall t ht

end Threshold

/-! ## Groups -/

namespace ScenarioDocument

/-- the expressions for a metric, in their order -/
def expressionsFor (metric : String) (ts : List Threshold) : List String :=
  (Threshold.forMetric metric ts).map Threshold.expression

theorem expressionsFor_concat (metric : String) (ts : List Threshold) (t : Threshold) :
    expressionsFor metric (ts ++ [t]) =
      expressionsFor metric ts ++ if t.metric = metric then [t.expression] else [] := by
  unfold expressionsFor
  rw [Threshold.forMetric_append, List.map_append]
  split
  · rename_i hm
    simp [Threshold.forMetric, hm]
  · rename_i hm
    simp [Threshold.forMetric, hm]

/-- thresholds by metric -/
def groups (ts : List Threshold) : Ordered (List String) :=
  ts.foldl group []

theorem groups_concat (ts : List Threshold) (t : Threshold) : groups (ts ++ [t]) = group (groups ts) t :=
  List.foldl_append

theorem ascending_groups (ts : List Threshold) : (groups ts).Ascending := by
  induction ts using List.reverseRecOn with
  | nil => exact Ordered.ascending_nil
  | append_singleton ts t ih =>
    rw [groups_concat]
    exact ih.put

/-- a metric with thresholds has their expressions, and no other metric is there -/
theorem get?_groups (metric : String) (ts : List Threshold) : (groups ts).get? metric =
    if expressionsFor metric ts = [] then none else some (expressionsFor metric ts) := by
  induction ts using List.reverseRecOn with
  | nil => rfl
  | append_singleton ts t ih =>
    rw [groups_concat, group, Ordered.get?_put, expressionsFor_concat]
    by_cases hm : metric = t.metric
    · subst hm
      rw [if_pos rfl, if_pos rfl, if_neg (by simp), ih]
      split
      · rename_i hnil
        rw [hnil]
        rfl
      · rfl
    · have hm' : ¬t.metric = metric := fun heq => hm heq.symm
      rw [if_neg hm, if_neg hm', List.append_nil, ih]

/-- thresholds with the same part for each metric have the same groups -/
theorem groups_eq {l r : List Threshold} (h : ∀ metric, Threshold.forMetric metric l = Threshold.forMetric metric r) :
    groups l = groups r := by
  refine (ascending_groups l).ext (ascending_groups r) fun metric => ?_
  rw [get?_groups, get?_groups, expressionsFor, expressionsFor, h]

theorem groups_sorted (ts : List Threshold) : groups (Threshold.sorted ts) = groups ts :=
  groups_eq fun metric => Threshold.forMetric_sorted metric ts

theorem mem_groups {ts : List Threshold} {e : String × List String} (h : e ∈ groups ts) :
    e.2 = expressionsFor e.1 ts ∧ e.2 ≠ [] := by
  have hget := Ordered.get?_of_mem (ascending_groups ts) (k := e.1) (v := e.2) h
  rw [get?_groups] at hget
  split at hget
  · cases hget
  · rename_i hne
    have heq := Option.some.inj hget
    exact ⟨heq.symm, fun hnil => hne (heq.trans hnil)⟩

/-- every threshold is in the group of its metric -/
theorem metric_mem_groups {ts : List Threshold} {t : Threshold} (h : t ∈ ts) : t.metric ∈ (groups ts).map Prod.fst := by
  have hmem : t ∈ Threshold.forMetric t.metric ts := Threshold.mem_forMetric.2 ⟨h, rfl⟩
  have hne : expressionsFor t.metric ts ≠ [] := List.ne_nil_of_mem (List.mem_map_of_mem hmem)
  have hget := get?_groups t.metric ts
  rw [if_neg hne] at hget
  exact List.mem_map_of_mem (f := Prod.fst) (Ordered.mem_of_get? hget)

end ScenarioDocument

end LoadGen
