import UpToDate.FileTree.Basic
import UpToDate.Proofs.Dict

namespace UpToDate

namespace NameSet

variable {a b : NameSet} {n : String}

theorem mem_union : n ∈ (a.union b).keys ↔ n ∈ a.keys ∨ n ∈ b.keys := by
  have hfold : a.union b = (b.keys.map fun n ↦ (n, ())).foldl (fun s e ↦ s.insert e.1 e.2) a := by
    rw [List.foldl_map]
    rfl
  rw [Dict.mem_keys_iff, hfold, Dict.get?_foldl_insert, Dict.mem_keys_iff]
  cases hn : Dict.find n (b.keys.map fun n ↦ (n, ())).reverse with
  | none =>
    rw [Dict.find_eq_none_iff] at hn
    simp_all
  | some u =>
    have hmem : Dict.find n (b.keys.map fun n ↦ (n, ())).reverse ≠ none := by simp [hn]
    rw [ne_eq, Dict.find_eq_none_iff] at hmem
    simp_all

theorem mem_ofList {l : List String} : n ∈ (ofList l).keys ↔ n ∈ l := by
  rw [ofList, Dict.mem_keys_ofList, List.map_map]
  simp

theorem union_empty (a : NameSet) : a.union .empty = a := rfl

end NameSet

namespace Report

variable {α : Type}

theorem andThen_nothing (r : Report) : r.andThen nothing = r := by
  obtain ⟨entries, result, d⟩ := r
  cases result with
  | error e => rfl
  | ok u => simp [andThen, nothing]

theorem andThen_assoc (r : Report) (k l : Disk → Report) :
    (r.andThen k).andThen l = r.andThen fun d ↦ (k d).andThen l := by
  obtain ⟨entries, result, d⟩ := r
  cases result with
  | error e => rfl
  | ok u =>
    cases hk : (k d).result with
    | error e => simp only [andThen, hk]
    | ok u => simp only [andThen, hk, List.append_assoc]

theorem each_append (f : α → Disk → Report) (as bs : List α) (d : Disk) :
    each f (as ++ bs) d = (each f as d).andThen (each f bs) := by
  induction as generalizing d with
  | nil => rfl
  | cons a as ih =>
    have htail : each f (as ++ bs) = fun d ↦ (each f as d).andThen (each f bs) := funext ih
    rw [List.cons_append, each, each, htail, andThen_assoc]

end Report

def Leaf.within (l : Leaf) (around : List Refinement) : Leaf :=
  { l with refinements := l.refinements ++ around }

namespace FileTree

section Leaves

theorem leavesOfAll_eq (ts : List FileTree) : leavesOfAll ts = ts.flatMap leaves := by
  induction ts with
  | nil => rfl
  | cons t ts ih => rw [leavesOfAll, ih, List.flatMap_cons]

theorem leaves_union (ts : List FileTree) : (union ts).leaves = ts.flatMap leaves := by
  rw [leaves, leavesOfAll_eq]

theorem leaves_refine (t : FileTree) (r : Refinement) :
    (t.refine r).leaves = t.leaves.map (·.refined r) := by
  cases t <;> rfl

theorem leaves_builtBy (t : FileTree) (names : List String) :
    (t.builtBy names).leaves = t.leaves := by
  rw [builtBy, leaves]

end Leaves

section Producers

variable {n : String}

theorem producers_refine (t : FileTree) (r : Refinement) :
    (t.refine r).producers = t.producers := by
  cases t <;> rfl

theorem producers_union (s t : FileTree) :
    (union [s, t]).producers = s.producers.union t.producers := by
  rw [producers, producersOfAll, producersOfAll, producersOfAll, NameSet.union_empty]

end Producers

section Visits

/-- The same visits on every disk: the entries in order, how it ends, and the disk it leaves. -/
def SameVisits (s t : FileTree) : Prop :=
  ∀ (missing : Missing) (d : Disk), s.visit missing d = t.visit missing d

theorem SameVisits.of_leaves {s t : FileTree} (h : s.leaves = t.leaves) : SameVisits s t := by
  intro missing d
  rw [visit, visit, h]

theorem visit_union (ts : List FileTree) (missing : Missing) (d : Disk) :
    (union ts).visit missing d = Report.each (fun t ↦ t.visit missing) ts d := by
  rw [visit, leaves_union]
  induction ts generalizing d with
  | nil => rfl
  | cons t ts ih =>
    have htail : Report.each (fun l ↦ l.visit missing) (ts.flatMap leaves)
        = Report.each (fun t ↦ t.visit missing) ts := funext ih
    rw [List.flatMap_cons, Report.each_append, htail, Report.each, visit]

end Visits

/-- How a tree is put together. -/
inductive Plan
  | empty
  | leaf (l : Leaf)
  | union (first second : Plan)
  | unionAll (parts : List Plan)
  | refine (source : Plan) (r : Refinement)
  | builtBy (source : Plan) (names : List String)

namespace Plan

mutual

def tree : Plan → FileTree
  | empty => .empty
  | leaf l => .leaf l
  | union a b => .union [a.tree, b.tree]
  | unionAll ps => .union (treesOfAll ps)
  | refine p r => p.tree.refine r
  | builtBy p names => p.tree.builtBy names

def treesOfAll : List Plan → List FileTree
  | [] => []
  | p :: ps => p.tree :: treesOfAll ps

end

mutual

/-- The leaves from left to right, each with its own refinements and then those around it, the
innermost first. -/
def leavesWithin : Plan → (around : List Refinement) → List Leaf
  | empty, _ => []
  | leaf l, around => [l.within around]
  | union a b, around => a.leavesWithin around ++ b.leavesWithin around
  | unionAll ps, around => leavesOfAllWithin ps around
  | refine p r, around => p.leavesWithin (r :: around)
  | builtBy p _, around => p.leavesWithin around

def leavesOfAllWithin : List Plan → (around : List Refinement) → List Leaf
  | [], _ => []
  | p :: ps, around => p.leavesWithin around ++ leavesOfAllWithin ps around

end

/-- A part of the plan marks what it makes with these units of work. -/
inductive Marks : Plan → List String → Prop
  | here {p : Plan} {names : List String} : Marks (builtBy p names) names
  | first {a b : Plan} {names : List String} : Marks a names → Marks (union a b) names
  | second {a b : Plan} {names : List String} : Marks b names → Marks (union a b) names
  | part {ps : List Plan} {p : Plan} {names : List String} : p ∈ ps → Marks p names →
      Marks (unionAll ps) names
  | refined {p : Plan} {r : Refinement} {names : List String} : Marks p names →
      Marks (refine p r) names
  | marked {p : Plan} {more names : List String} : Marks p names → Marks (builtBy p more) names

section Leaves

mutual

theorem leavesWithin_eq (p : Plan) (around : List Refinement) :
    p.leavesWithin around = p.tree.leaves.map (·.within around) := by
  cases p with
  | empty => rfl
  | leaf l => rfl
  | union a b =>
    rw [leavesWithin, tree, leaves_union, leavesWithin_eq a, leavesWithin_eq b]
    simp
  | unionAll ps => rw [leavesWithin, tree, leaves_union, leavesOfAllWithin_eq ps]
  | refine p r =>
    rw [leavesWithin, tree, leaves_refine, leavesWithin_eq p, List.map_map]
    refine List.map_congr_left fun l _ ↦ ?_
    simp [Leaf.within, Leaf.refined]
  | builtBy p names => rw [leavesWithin, tree, leaves_builtBy, leavesWithin_eq p]

theorem leavesOfAllWithin_eq (ps : List Plan) (around : List Refinement) :
    leavesOfAllWithin ps around = ((treesOfAll ps).flatMap leaves).map (·.within around) := by
  cases ps with
  | nil => rfl
  | cons p ps =>
    rw [leavesOfAllWithin, treesOfAll, List.flatMap_cons, List.map_append, leavesWithin_eq p,
      leavesOfAllWithin_eq ps]

end

theorem leaves_tree (p : Plan) : p.tree.leaves = p.leavesWithin [] := by
  have hsame : (fun l : Leaf ↦ l.within []) = id := by
    funext l
    simp [Leaf.within]
  rw [leavesWithin_eq, hsame, List.map_id]

end Leaves

section Marks

variable {names more : List String} {a b p : Plan} {ps : List Plan} {l : Leaf} {r : Refinement}

theorem not_marks_empty : ¬empty.Marks names := nofun

theorem not_marks_leaf : ¬(leaf l).Marks names := nofun

theorem marks_union : (union a b).Marks names ↔ a.Marks names ∨ b.Marks names := by
  constructor
  · rintro (_ | h | h)
    · exact .inl h
    · exact .inr h
  · rintro (h | h)
    · exact .first h
    · exact .second h

theorem marks_unionAll : (unionAll ps).Marks names ↔ ∃ p ∈ ps, p.Marks names := by
  constructor
  · rintro (_ | _ | _ | ⟨hmem, h⟩)
    exact ⟨_, hmem, h⟩
  · rintro ⟨p, hmem, h⟩
    exact .part hmem h

theorem marks_refine : (refine p r).Marks names ↔ p.Marks names := by
  constructor
  · rintro (_ | _ | _ | _ | h)
    exact h
  · exact .refined

theorem marks_builtBy : (builtBy p more).Marks names ↔ names = more ∨ p.Marks names := by
  constructor
  · rintro (_ | _ | _ | _ | _ | h)
    · exact .inl rfl
    · exact .inr h
  · rintro (rfl | h)
    · exact .here
    · exact .marked h

end Marks

section Producers

variable {n : String}

mutual

theorem mem_producers (p : Plan) :
    n ∈ p.tree.producers.keys ↔ ∃ names, p.Marks names ∧ n ∈ names := by
  cases p with
  | empty => simp [tree, producers, Dict.keys, Dict.empty, not_marks_empty]
  | leaf l => simp [tree, producers, Dict.keys, Dict.empty, not_marks_leaf]
  | union a b =>
    rw [tree, producers_union, NameSet.mem_union, mem_producers a, mem_producers b]
    simp only [marks_union, or_and_right, exists_or]
  | unionAll ps =>
    rw [tree, producers, mem_producersOfAll ps]
    simp only [marks_unionAll]
    constructor
    · rintro ⟨p, hp, names, h, hn⟩
      exact ⟨names, ⟨p, hp, h⟩, hn⟩
    · rintro ⟨names, ⟨p, hp, h⟩, hn⟩
      exact ⟨p, hp, names, h, hn⟩
  | refine p r =>
    rw [tree, producers_refine, mem_producers p]
    simp only [marks_refine]
  | builtBy p more =>
    rw [tree, FileTree.builtBy, producers, NameSet.mem_union, NameSet.mem_ofList, mem_producers p]
    simp only [marks_builtBy, or_and_right, exists_or, exists_eq_left]

theorem mem_producersOfAll (ps : List Plan) :
    n ∈ (producersOfAll (treesOfAll ps)).keys ↔ ∃ p ∈ ps, ∃ names, p.Marks names ∧ n ∈ names := by
  cases ps with
  | nil => simp [treesOfAll, producersOfAll, Dict.keys, Dict.empty]
  | cons p ps =>
    rw [treesOfAll, producersOfAll, NameSet.mem_union, mem_producers p, mem_producersOfAll ps]
    simp only [List.mem_cons, or_and_right, exists_or, exists_eq_left]

end

end Producers

end Plan

/-- Unions and refinements as laws of trees. Leaves come in order with their own refinements and
then those around them; so refining goes through a union, unions may be regrouped and leave out
what is empty, and marks change no visit. A union visits its trees one after the other, whatever
they share. -/
theorem composition_laws (p : Plan) (s t u : FileTree) (ts : List FileTree) (r : Refinement)
    (names : List String) :
    p.tree.leaves = p.leavesWithin [] ∧
    ((union [s, t]).refine r).SameVisits (union [s.refine r, t.refine r]) ∧
    (union [union [s, t], u]).SameVisits (union [s, union [t, u]]) ∧
    (union [empty, t]).SameVisits t ∧
    (union [t, empty]).SameVisits t ∧
    (∀ missing d, (union [s, t]).visit missing d
      = (s.visit missing d).andThen (t.visit missing)) ∧
    (∀ missing d, (union ts).visit missing d = Report.each (fun t ↦ t.visit missing) ts d) ∧
    (t.builtBy names).SameVisits t ∧
    (∀ n, n ∈ p.tree.producers.keys ↔ ∃ marks, p.Marks marks ∧ n ∈ marks) ∧
    (t.refine r).producers = t.producers ∧
    (union [s, t]).producers = s.producers.union t.producers := by
  refine ⟨p.leaves_tree, .of_leaves ?_, .of_leaves ?_, .of_leaves ?_, .of_leaves ?_, ?_,
    visit_union ts, .of_leaves (t.leaves_builtBy names), fun n ↦ p.mem_producers,
    t.producers_refine r, producers_union s t⟩
  · simp [leaves_refine, leaves_union]
  · simp [leaves_union]
  · simp [leaves, leavesOfAll]
  · simp [leaves, leavesOfAll]
  · intro missing d
    have hlast : Report.each (fun t ↦ t.visit missing) [t] = t.visit missing :=
      funext fun d ↦ Report.andThen_nothing _
    rw [visit_union, Report.each, hlast]

end FileTree

end UpToDate
