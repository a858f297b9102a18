import UpToDate.Proofs.Disk.Depth
import UpToDate.Proofs.FileTree.Walk
import Mathlib.Data.Set.Finite.Lattice
import Mathlib.Data.Set.Finite.List
import Mathlib.Logic.Relation
import Mathlib.Order.WellFounded

namespace UpToDate

open UpToDate.Path (IsStep)
open Relation (ReflTransGen)

variable {l : Leaf} {d : Disk} {base dir root : Path} {above s : String} {names : List String}
  {q r : Place} {n m k j : Nat}

namespace Leaf

section Calls

/-- A call of a walk: for the directory at this path, which is at this relative path. -/
structure Call where
  dir : Path
  above : String

/-- A call makes another one, for a directory that is listed in its own and not left out. -/
inductive Calls (l : Leaf) (d : Disk) : Call → Call → Prop
  | inside {c : Call} {names : List String} {s : String}
      (hlist : d.list c.dir = .ok names) (hs : s ∈ names)
      (hstat : d.stat (Path.join c.dir s) = .ok .directory)
      (hprunes : l.prunes (below c.above s) = false) :
      Calls l d c ⟨Path.join c.dir s, below c.above s⟩

variable {c c' : Call}

theorem Calls.room_lt (h : l.Calls d c c') : d.room c'.dir < d.room c.dir := by
  cases h with
  | inside hlist hs hstat _ =>
    obtain ⟨q, hq⟩ := Disk.leads_of_list hlist hs
    exact Disk.room_join_lt (isStep_of_list hlist hs) hq hstat

theorem Calls.size_lt (h : l.Calls d c c') : c.dir.utf8ByteSize < c'.dir.utf8ByteSize := by
  cases h with
  | inside hlist hs _ _ => exact Path.utf8ByteSize_join_lt (isStep_of_list hlist hs) c.dir

theorem Calls.size_le (h : l.Calls d c c') : c'.dir.utf8ByteSize ≤ Disk.pathLimit := by
  cases h with
  | inside _ _ hstat _ => exact Disk.size_of_stat hstat

theorem Calls.stands (h : l.Calls d c c') (hdir : Path.Stands base c.dir c.above) :
    Path.Stands base c'.dir c'.above := by
  cases h with
  | inside hlist hs _ _ => exact hdir.below (isStep_of_list hlist hs)

theorem wellFounded_calls (l : Leaf) (d : Disk) : WellFounded fun c' c ↦ l.Calls d c c' :=
  (measure fun c : Call ↦ d.room c.dir).wf.mono fun _ _ h ↦ h.room_lt

theorem length_le_of_isChain {calls : List Call} (h : calls.IsChain (l.Calls d)) :
    calls.length ≤ (Disk.linkLimit + 1) * (d.height + 1) := by
  have hroom (c : Call) (rest : List Call) (h : (c :: rest).IsChain (l.Calls d)) :
      rest.length ≤ d.room c.dir := by
    induction rest generalizing c with
    | nil => exact Nat.zero_le _
    | cons c' rest ih =>
      obtain ⟨hcalls, hrest⟩ := List.isChain_cons_cons.1 h
      exact Nat.lt_of_le_of_lt (ih c' hrest) hcalls.room_lt
  cases calls with
  | nil => exact Nat.zero_le _
  | cons c rest => exact Nat.lt_of_le_of_lt (hroom c rest h) (d.room_lt c.dir)

theorem finite_calls (l : Leaf) (d : Disk) (c : Call) : {c' | l.Calls d c c'}.Finite := by
  cases hlist : d.list c.dir with
  | error e =>
    refine Set.Finite.subset Set.finite_empty ?_
    rintro _ ⟨hlist', -, -, -⟩
    rw [hlist] at hlist'
    cases hlist'
  | ok names =>
    refine ((List.finite_toSet names).image fun s ↦
      (⟨Path.join c.dir s, below c.above s⟩ : Call)).subset ?_
    rintro _ ⟨hlist', hs, -, -⟩
    rw [hlist] at hlist'
    cases hlist'
    exact ⟨_, hs, rfl⟩

/-- A call makes only so many calls, itself and through others. -/
theorem finite_reached (l : Leaf) (d : Disk) (c : Call) :
    {c' | ReflTransGen (l.Calls d) c c'}.Finite := by
  induction c using (wellFounded_calls l d).induction with
  | _ c ih =>
    have hall : {c' | ReflTransGen (l.Calls d) c c'} =
        {c} ∪ ⋃ c' ∈ {c' | l.Calls d c c'}, {c'' | ReflTransGen (l.Calls d) c' c''} := by
      ext c''
      simp only [Set.mem_ofPred_eq, Set.mem_union, Set.mem_singleton_iff, Set.mem_iUnion,
        exists_prop]
      rw [Relation.ReflTransGen.cases_head_iff, eq_comm]
    rw [hall]
    exact (Set.finite_singleton c).union ((finite_calls l d c).biUnion ih)

end Calls

section Levels

variable {goOn goOn' : Path → String → Disk → Report}

/-- What a call reports if `goOn` makes the calls that it makes. -/
def call (l : Leaf) (goOn : Path → String → Disk → Report) (dir : Path) (above : String)
    (d : Disk) : Report :=
  match d.list dir with
  | .error c => .failure (.unreadable dir c) d
  | .ok names => Report.each (l.child goOn dir above) names d

theorem walk_succ (k : Nat) : l.walk (k + 1) dir above d = l.call (l.walk k) dir above d := by
  rw [call]
  cases hlist : d.list dir with
  | error c => rw [walk_of_fault hlist]
  | ok names => rw [walk_of_list hlist]

theorem Pure.child_congr (h : l.Pure) (hgo : d.stat (Path.join dir s) = .ok .directory →
      l.prunes (below above s) = false →
        goOn (Path.join dir s) (below above s) d = goOn' (Path.join dir s) (below above s) d) :
    l.child goOn dir above s d = l.child goOn' dir above s d := by
  rw [child, child]
  split
  · rfl
  · next hstat =>
    split
    · rfl
    · next hprunes =>
      rw [h.report_eq, Report.andThen_of_ok rfl, Report.andThen_of_ok rfl,
        hgo hstat (Bool.not_eq_true _ ▸ hprunes)]
  · rfl

theorem Pure.call_congr (h : l.Pure) (hdir : Path.Stands base dir above)
    (hgo : ∀ c, l.Calls d ⟨dir, above⟩ c → goOn c.dir c.above d = l.walk k c.dir c.above d) :
    l.call goOn dir above d = l.call (l.walk k) dir above d := by
  rw [call, call]
  split
  · rfl
  · next names hlist =>
    refine Report.each_congr (fun s hs ↦ h.disk_child hdir (isStep_of_list hlist hs) k)
      fun s hs ↦ h.child_congr fun hstat hprunes ↦ ?_
    exact hgo _ (.inside hlist hs hstat hprunes)

theorem Pure.walk_eq_of_levels (h : l.Pure) (hdir : Path.Stands base dir above)
    (hsize : dir.utf8ByteSize ≤ Disk.pathLimit) (hn : Disk.pathLimit < n + dir.utf8ByteSize)
    (hm : Disk.pathLimit < m + dir.utf8ByteSize) : l.walk n dir above d = l.walk m dir above d := by
  induction n generalizing m dir above with
  | zero => omega
  | succ n ih =>
    obtain ⟨m, rfl⟩ : ∃ k, m = k + 1 := Nat.exists_eq_add_one_of_ne_zero (by omega)
    rw [walk_succ, walk_succ]
    refine h.call_congr hdir fun c hc ↦ ?_
    have hlonger : dir.utf8ByteSize < c.dir.utf8ByteSize := hc.size_lt
    exact ih (hc.stands hdir) hc.size_le (by omega) (by omega)

theorem Pure.walk_eq_call (h : l.Pure) (hdir : Path.Stands base dir above) :
    l.walk (Disk.pathLimit + 1) dir above d =
      l.call (l.walk (Disk.pathLimit + 1)) dir above d := by
  rw [walk_succ]
  refine h.call_congr hdir fun c hc ↦ ?_
  have hlonger : dir.utf8ByteSize < c.dir.utf8ByteSize := hc.size_lt
  exact h.walk_eq_of_levels (hc.stands hdir) hc.size_le (by omega) (by omega)

theorem stands_of_reached {c : Call} (h : ReflTransGen (l.Calls d) ⟨root, ""⟩ c) :
    Path.Stands root c.dir c.above := by
  induction h with
  | refl => exact Path.stands_self root
  | tail _ hcalls ih => exact hcalls.stands ih

theorem Pure.eq_walk_of_call (h : l.Pure) {c : Call}
    (hgo : ∀ c, ReflTransGen (l.Calls d) ⟨root, ""⟩ c →
      goOn c.dir c.above d = l.call goOn c.dir c.above d)
    (hc : ReflTransGen (l.Calls d) ⟨root, ""⟩ c) :
    goOn c.dir c.above d = l.walk (Disk.pathLimit + 1) c.dir c.above d := by
  induction c using (wellFounded_calls l d).induction with
  | _ c ih =>
    have hdir := stands_of_reached hc
    rw [hgo c hc, h.walk_eq_call hdir]
    exact h.call_congr hdir fun c' hcalls ↦ ih c' hcalls (hc.tail hcalls)

end Levels

section Loops

variable {up c c' : Call}

theorem Pure.result_calls (h : l.Pure) (hcalls : l.Calls d c c')
    (hdir : Path.Stands base c.dir c.above) (hok : (l.walk k c.dir c.above d).result = .ok ()) :
    ∃ j, k = j + 1 ∧ (l.walk j c'.dir c'.above d).result = .ok () := by
  cases k with
  | zero => cases hok
  | succ j =>
    cases hcalls with
    | inside hlist hs hstat hprunes =>
      rw [walk_of_list hlist] at hok
      have hchild := Report.result_each
        (fun s hs ↦ h.disk_child hdir (isStep_of_list hlist hs) j) hok
      exact ⟨j, rfl, h.result_below (hchild _ hs) hstat hprunes⟩

theorem Pure.result_reached (h : l.Pure) (hc : ReflTransGen (l.Calls d) ⟨root, ""⟩ c)
    (hok : (l.walk k root "" d).result = .ok ()) :
    ∃ j, (l.walk j c.dir c.above d).result = .ok () := by
  induction hc with
  | refl => exact ⟨k, hok⟩
  | tail hb hcalls ih =>
    obtain ⟨j, hj⟩ := ih
    obtain ⟨i, -, hi⟩ := h.result_calls hcalls (stands_of_reached hb) hj
    exact ⟨i, hi⟩

theorem exists_way_of_reached (h : ReflTransGen (l.Calls d) up c) (hq : d.Leads up.dir q)
    (hr : d.Leads c.dir r) : ∃ names n m, (∀ s ∈ names, IsStep s) ∧
      Disk.Way d.node? n (some q) names (some r) m := by
  induction h generalizing r with
  | refl =>
    obtain rfl := hq.unique hr
    exact ⟨[], 0, 0, fun s hs ↦ absurd hs List.not_mem_nil, .arrive 0 _⟩
  | tail _ hcalls ih =>
    cases hcalls with
    | @inside names s hlist hs hstat hprunes =>
      obtain ⟨p, hp⟩ := Disk.leads_of_list hlist hs
      obtain ⟨way, n, m, hsteps, hway⟩ := ih hp
      have hstep := isStep_of_list hlist hs
      obtain ⟨i, hi⟩ := hp
      obtain ⟨j, hj⟩ := hr
      obtain ⟨there, k, hthere, hname⟩ := Disk.way_of_stat_join hstep hi hstat
      obtain ⟨rfl, rfl⟩ := hthere.unique hj
      refine ⟨way ++ [s], _, _, ?_, hway.append hname⟩
      intro t ht
      rcases List.mem_append.1 ht with ht | ht
      · exact hsteps t ht
      · exact List.mem_singleton.1 ht ▸ hstep

/-- A walk that succeeds and leaves out nothing goes where a name leads, from whichever path leads
to the directory of the name. -/
theorem Pure.exists_walk_of_name (h : l.Pure) (hprunes : ∀ path, l.prunes path = false)
    (hs : IsStep s) (hname : Disk.Way d.node? n (some q) [s] (some r) m)
    (hdir : Path.Stands base dir above) (hq : d.Leads dir q)
    (hok : (l.walk k dir above d).result = .ok ()) : ∃ j, k = j + 1 ∧
      d.Leads (Path.join dir s) r ∧
        (l.walk j (Path.join dir s) (below above s) d).result = .ok () := by
  cases k with
  | zero => cases hok
  | succ j =>
    cases hlist : d.list dir with
    | error c =>
      rw [walk_of_fault hlist] at hok
      cases hok
    | ok names =>
      have hmem : s ∈ names := by
        obtain ⟨p, hp, hthere, -⟩ := hname.name_cases hs
        cases hp
        rw [hq.names_eq hlist]
        exact (Disk.mem_names_iff hq.directory).2 hthere
      rw [walk_of_list hlist] at hok
      have hchild := Report.result_each
        (fun s hs ↦ h.disk_child hdir (isStep_of_list hlist hs) j) hok s hmem
      obtain ⟨node, hstat⟩ := exists_stat hchild
      obtain ⟨rfl, hr⟩ := hq.stat_join hs hname hstat
      exact ⟨j, rfl, hr, h.result_below hchild hstat (hprunes _)⟩

theorem Pure.exists_walk_of_way (h : l.Pure) (hprunes : ∀ path, l.prunes path = false)
    (hsteps : ∀ s ∈ names, IsStep s) (hway : Disk.Way d.node? n (some q) names (some r) m)
    (hdir : Path.Stands base dir above) (hq : d.Leads dir q)
    (hok : (l.walk k dir above d).result = .ok ()) : ∃ j dir' above',
      k = j + names.length ∧ Path.Stands base dir' above' ∧ d.Leads dir' r ∧
        (l.walk j dir' above' d).result = .ok () := by
  induction names generalizing n q k dir above with
  | nil =>
    cases hway
    exact ⟨k, dir, above, rfl, hdir, hq, hok⟩
  | cons s names ih =>
    obtain ⟨hs, hrest⟩ := List.forall_mem_cons.1 hsteps
    obtain ⟨there, i, hname, hway⟩ := Disk.Way.exists_of_append (l := [s]) hway
    obtain ⟨p, rfl⟩ := hway.exists_start hrest
    obtain ⟨j, rfl, hp, hj⟩ := h.exists_walk_of_name hprunes hs hname hdir hq hok
    obtain ⟨i, dir', above', rfl, hdone⟩ := ih hrest hway (hdir.below hs) hp hj
    exact ⟨i, dir', above', rfl, hdone⟩

/-- A walk does not succeed where names lead back to the directory that they start in: it would go
round again with fewer levels, and would have to succeed there too. -/
theorem Pure.result_ne_ok_of_way (h : l.Pure) (hprunes : ∀ path, l.prunes path = false)
    (hne : names ≠ []) (hsteps : ∀ s ∈ names, IsStep s)
    (hway : Disk.Way d.node? n (some q) names (some q) m) (hdir : Path.Stands base dir above)
    (hq : d.Leads dir q) : (l.walk k dir above d).result ≠ .ok () := by
  induction k using Nat.strong_induction_on generalizing dir above with
  | _ k ih =>
    intro hok
    obtain ⟨j, dir', above', rfl, hdir', hq', hok'⟩ :=
      h.exists_walk_of_way hprunes hsteps hway hdir hq hok
    have hfewer : j < j + names.length := Nat.lt_add_of_pos_right (List.length_pos_iff.2 hne)
    exact ih j hfewer hdir' hq' hok'

/-- In some directory that a walk reaches there is a link to that directory, or to one that the walk
came through to it. -/
inductive Loops (l : Leaf) (d : Disk) (root : Path) : Prop
  | link {up c : Call} {q r : Place} {s : String} {target : Path} {n m : Nat}
      (hup : ReflTransGen (l.Calls d) ⟨root, ""⟩ up) (hdown : ReflTransGen (l.Calls d) up c)
      (hq : d.Leads up.dir q) (hr : d.Leads c.dir r)
      (hlink : d.node? (r ++ [s]) = some (.link target))
      (hback : Disk.Way d.node? n (some r) [s] (some q) m) : Loops l d root

theorem prunes_of_no_excludes (h : ∀ s, .patterns s ∈ l.refinements → s.excludes = [])
    (path : String) : l.prunes path = false := by
  refine List.any_eq_false.2 fun x hx ↦ ?_
  cases x with
  | predicate p => exact Bool.false_ne_true
  | patterns s =>
    rw [Refinement.prunes, PatternSet.prunes, h s hx]
    exact Bool.false_ne_true

theorem Pure.exists_fault_of_loops (h : l.Pure) (hroot : l.source = .directory root)
    (hexcludes : ∀ s, .patterns s ∈ l.refinements → s.excludes = []) {node : Node}
    (hstat : d.stat root = .ok node) (hloops : l.Loops d root) (missing : Missing) :
    ∃ e, (l.visit missing d).result = .error e := by
  have hprunes := prunes_of_no_excludes hexcludes
  cases hresult : (l.visit missing d).result with
  | error e => exact ⟨e, rfl⟩
  | ok u =>
    cases hloops with
    | @link up c q r s target n m hup hdown hq hr hlink hback =>
      have hdirectory : d.stat root = .ok .directory := by
        rcases stat_of_visit hroot hresult with hdir | ⟨-, hgone, -⟩
        · exact hdir
        · rw [hstat] at hgone
          cases hgone
      rw [visit_of_directory hroot hdirectory] at hresult
      obtain ⟨k, hk⟩ := h.result_reached hup hresult
      obtain ⟨names, i, j, hsteps, hway⟩ := exists_way_of_reached hdown hq hr
      have hs : IsStep s := isStep_of_isName (Disk.parent_of_node? hlink).2
      have hround : ∀ t ∈ names ++ [s], IsStep t := by
        intro t ht
        rcases List.mem_append.1 ht with ht | ht
        · exact hsteps t ht
        · exact List.mem_singleton.1 ht ▸ hs
      exact absurd hk (h.result_ne_ok_of_way hprunes (by simp) hround (hway.append hback)
        (stands_of_reached hup) hq)

/-- Each call of a walk has only so many calls below it, in chains that are not longer than the
links and the height of the disk allow; the walk makes them all, and nothing else does what it does.
Where it reaches a link back to where it came through, and leaves out nothing, the visit fails. -/
theorem Pure.walk_finite (h : l.Pure) (hroot : l.source = .directory root) (missing : Missing)
    (d : Disk) :
    (WellFounded fun c' c ↦ l.Calls d c c') ∧
    (∀ calls : List Call, calls.IsChain (l.Calls d) →
      calls.length ≤ (Disk.linkLimit + 1) * (d.height + 1)) ∧
    (∀ c, {c' | ReflTransGen (l.Calls d) c c'}.Finite) ∧
    (∀ c, ReflTransGen (l.Calls d) ⟨root, ""⟩ c →
      l.walk (Disk.pathLimit + 1) c.dir c.above d =
        l.call (l.walk (Disk.pathLimit + 1)) c.dir c.above d) ∧
    (∀ goOn : Path → String → Disk → Report,
      (∀ c, ReflTransGen (l.Calls d) ⟨root, ""⟩ c →
        goOn c.dir c.above d = l.call goOn c.dir c.above d) →
      ∀ c, ReflTransGen (l.Calls d) ⟨root, ""⟩ c →
        goOn c.dir c.above d = l.walk (Disk.pathLimit + 1) c.dir c.above d) ∧
    ((∀ s, .patterns s ∈ l.refinements → s.excludes = []) →
      (∃ node, d.stat root = .ok node) → l.Loops d root →
        ∃ e, (l.visit missing d).result = .error e) := by
  refine ⟨wellFounded_calls l d, fun calls ↦ length_le_of_isChain, finite_reached l d,
    fun c hc ↦ h.walk_eq_call (stands_of_reached hc), fun goOn hgo c ↦ h.eq_walk_of_call hgo, ?_⟩
  rintro hexcludes ⟨node, hstat⟩ hloops
  exact h.exists_fault_of_loops hroot hexcludes hstat hloops missing

end Loops

end Leaf

def Disk.looping : Disk :=
  ((empty.put [] "x" .directory).put ["x"] "y" .directory).put ["x", "y"] "back" (.link "..")

theorem Leaf.loops_looping : (directory "x").Loops .looping "x" := by
  have hlist : Disk.looping.list "x" = .ok ["y"] := by decide +kernel
  have hstat : Disk.looping.stat (Path.join "x" "y") = .ok .directory := by decide +kernel
  have hcalls : (directory "x").Calls .looping ⟨"x", ""⟩ ⟨"x/y", "y"⟩ :=
    .inside (c := ⟨"x", ""⟩) hlist List.mem_cons_self hstat rfl
  have hup : Disk.looping.Leads "x" ["x"] :=
    ⟨40, Disk.way_of_enter (r := (some ["x"], 40)) (by decide +kernel)⟩
  have hc : Disk.looping.Leads "x/y" ["x", "y"] :=
    ⟨40, Disk.way_of_enter (r := (some ["x", "y"], 40)) (by decide +kernel)⟩
  have hback : Disk.Way Disk.looping.node? 1 (some ["x", "y"]) ["back"] (some ["x"]) 0 :=
    Disk.way_of_enter (r := (some ["x"], 0)) (by decide +kernel)
  have hlink : Disk.looping.node? (["x", "y"] ++ ["back"]) = some (.link "..") := by
    decide +kernel
  exact .link .refl (.single hcalls) hup hc hlink hback

theorem Leaf.walk_finite_looping :
    (∀ c, {c' | ReflTransGen ((directory "x").Calls .looping) c c'}.Finite) ∧
      (directory "x").Loops .looping "x" ∧
      ∃ e, ((directory "x").visit .fails .looping).result = .error e := by
  have hpure : (directory "x").Pure := fun r hr ↦ absurd hr List.not_mem_nil
  obtain ⟨-, -, hfinite, -, -, hfails⟩ := Pure.walk_finite hpure rfl .fails .looping
  have hroot : Disk.looping.stat "x" = .ok .directory := by decide +kernel
  refine ⟨hfinite, loops_looping, hfails ?_ ⟨_, hroot⟩ loops_looping⟩
  exact fun s hs ↦ absurd hs List.not_mem_nil

end UpToDate
