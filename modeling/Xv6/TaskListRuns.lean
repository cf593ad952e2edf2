import Xv6.TaskList

namespace Xv6.TaskSet

def IsSib (y : TaskNode) : Prop := ∃ t, y = .sib t

/-- What the upkeep of the process tree may change: the sibling nodes and the tree
fields of the tasks. -/
structure TreeOnly (s s' : TaskSet) : Prop where
  link : s.link.Closed IsSib → s.link.KeepsTo s'.link IsSib
  pid : ∀ t, (s'.task t).pid = (s.task t).pid
  tid : ∀ t, (s'.task t).tid = (s.task t).tid
  num : s'.procNum = s.procNum

theorem TreeOnly.refl (s : TaskSet) : TreeOnly s s :=
  ⟨fun closed => ⟨closed, fun y _ => .refl _ y⟩, fun _ => rfl, fun _ => rfl, rfl⟩

theorem TreeOnly.trans {s s' s'' : TaskSet} (first : TreeOnly s s') (second : TreeOnly s' s'') : TreeOnly s s'' := by
  refine ⟨fun closed => ?_, fun t => (second.pid t).trans (first.pid t), fun t => (second.tid t).trans (first.tid t),
    second.num.trans first.num⟩
  obtain ⟨closed', same'⟩ := first.link closed
  obtain ⟨closed'', same''⟩ := second.link closed'
  exact ⟨closed'', fun y outside => (same' y outside).trans (same'' y outside)⟩

theorem treeOnly_setTask {s : TaskSet} {t : Nat} {v : Task} (pid : v.pid = (s.task t).pid)
    (tid : v.tid = (s.task t).tid) : TreeOnly s (s.setTask t v) := by
  refine ⟨fun closed => ⟨closed, fun y _ => .refl _ y⟩, fun u => ?_, fun u => ?_, rfl⟩ <;> by_cases here : u = t
  · simp [setTask, here, pid]
  · simp [setTask, here]
  · simp [setTask, here, tid]
  · simp [setTask, here]

theorem treeOnly_link {s : TaskSet} {L : Links TaskNode} (link : s.link.Closed IsSib → s.link.KeepsTo L IsSib) :
    TreeOnly s { s with link := L } :=
  ⟨link, fun _ => rfl, fun _ => rfl, rfl⟩

theorem treeOnly_numSibling (s : TaskSet) (t n : Nat) : TreeOnly s (s.setNumSibling t n) := treeOnly_setTask rfl rfl
theorem treeOnly_parent (s : TaskSet) (t n : Nat) : TreeOnly s (s.setParent t n) := treeOnly_setTask rfl rfl
theorem treeOnly_firstChild (s : TaskSet) (t : Nat) (c : Option Nat) : TreeOnly s (s.setFirstChild t c) :=
  treeOnly_setTask rfl rfl
theorem treeOnly_numChild (s : TaskSet) (t n : Nat) : TreeOnly s (s.setNumChild t n) := treeOnly_setTask rfl rfl

/-- A loop over the siblings changes what its body changes. -/
theorem treeOnly_eachSibling {limit : TaskSet → Nat} {change : TaskSet → Nat → TaskSet}
    (body : ∀ s t, TreeOnly s (change s t)) {fuel i t t' : Nat} {s s' : TaskSet}
    (done : eachSibling limit change fuel i t s = .ok (t', s')) : TreeOnly s s' := by
  induction fuel generalizing i t s with
  | zero => cases done
  | succ fuel ih =>
    rw [eachSibling] at done
    split at done
    · obtain ⟨u, -, rest⟩ := Res.bind_eq_ok.mp done
      exact (body s t).trans (ih rest)
    · cases done
      exact .refl _

theorem treeOnly_addChild {s s' : TaskSet} {proc parent : Nat} (done : s.addChild proc parent = .ok s') :
    TreeOnly s s' := by
  rw [addChild] at done
  split at done
  · cases done
    exact .refl _
  · split at done
    · cases done
      exact (treeOnly_firstChild ..).trans (treeOnly_numSibling ..)
    · rename_i fchild _
      obtain ⟨⟨t, s₁⟩, loop, rest⟩ := Res.bind_eq_ok.mp done
      cases rest
      have looped := treeOnly_eachSibling (fun s t => treeOnly_numSibling s t _) loop
      refine (looped.trans (treeOnly_link fun closed => ?_)).trans (treeOnly_numSibling ..)
      exact closed.addBefore ⟨fchild, rfl⟩ ⟨proc, rfl⟩

theorem treeOnly_passFirstChild {s s' : TaskSet} {proc parent : Nat} (done : s.passFirstChild proc parent = .ok s') :
    TreeOnly s s' := by
  rw [passFirstChild] at done
  split at done
  · split at done
    · cases done
      exact treeOnly_firstChild ..
    · obtain ⟨t, -, rest⟩ := Res.bind_eq_ok.mp done
      cases rest
      exact treeOnly_firstChild ..
  · cases done
    exact .refl _

theorem treeOnly_giveChildren {s s' : TaskSet} {proc init : Nat} (done : s.giveChildren proc init = .ok s') :
    TreeOnly s s' := by
  simp only [giveChildren] at done
  split at done
  · cases done
    exact .refl _
  · obtain ⟨⟨child, s₁⟩, loop, rest⟩ := Res.bind_eq_ok.mp done
    have looped := treeOnly_eachSibling (fun s t => (treeOnly_parent s t _).trans (treeOnly_numSibling ..)) loop
    split at rest
    · cases rest
      exact looped.trans (treeOnly_firstChild ..)
    · obtain ⟨⟨ichild, s₂⟩, loop₂, rest₂⟩ := Res.bind_eq_ok.mp rest
      cases rest₂
      have looped₂ := treeOnly_eachSibling (fun s t => treeOnly_numSibling s t _) loop₂
      exact (looped.trans looped₂).trans (treeOnly_link fun closed => closed.concat ⟨child, rfl⟩ ⟨ichild, rfl⟩)

theorem addProcess_tid {s s' : TaskSet} {proc parent : Nat} (done : s.addProcess proc parent = .ok s') (t : Nat) :
    (s'.task t).tid = (s.task t).tid := by
  rw [addProcess] at done
  split at done
  · cases done
  · obtain ⟨s₁, hung, rest⟩ := Res.bind_eq_ok.mp done
    cases rest
    have tree := (treeOnly_parent (s.addNodes proc) proc parent).trans (treeOnly_addChild hung)
    exact (tree.trans (treeOnly_numChild s₁ parent ((s₁.task parent).numChild + 1))).tid t

/-- The processes of a bucket, in order of addition. -/
def bucket (s : TaskSet) (l : List Nat) (i : Nat) : List Nat := l.filter (fun t => pidHash (s.task t).pid = i)

theorem pidHash_lt (pid : Int) : pidHash pid < hashListSize := by
  rw [pidHash, hash32, hashListOrder, hashListSize, Nat.shiftRight_eq_div_pow]
  have word := Nat.mod_lt ((pid % 2 ^ 32).toNat * goldenRatioPrime32 % 2 ^ 64) (show 0 < 2 ^ 32 by decide)
  omega

/-- The process lists hold the processes `l`: the global list in order of addition,
and each in the bucket of its pid. -/
structure Lists (s : TaskSet) (l : List Nat) : Prop where
  procs : s.link.IsRing .procList (l.map .proc)
  buckets : ∀ i, i < hashListSize → s.link.IsRing (.hashList i) ((s.bucket l i).map .hash)
  sibs : s.link.Closed IsSib

namespace Lists

variable {s s' : TaskSet} {l : List Nat}

theorem bucket_congr (pid : ∀ t, (s'.task t).pid = (s.task t).pid) (l : List Nat) (i : Nat) :
    s'.bucket l i = s.bucket l i := by
  simp only [bucket, pid]

theorem treeOnly (lists : Lists s l) (tree : TreeOnly s s') : Lists s' l := by
  obtain ⟨closed, same⟩ := tree.link lists.sibs
  refine ⟨lists.procs.congr (fun y member => same y ?_), fun i bound => ?_, closed⟩
  · rintro ⟨t, rfl⟩
    simp at member
  · rw [bucket_congr tree.pid]
    refine (lists.buckets i bound).congr (fun y member => same y ?_)
    rintro ⟨t, rfl⟩
    simp at member

/-- The insertion into the global list leaves the other nodes. -/
theorem insert_same (lists : Lists s l) {proc : Nat} {y : TaskNode} (outside : y ∉ TaskNode.procList :: l.map TaskNode.proc)
    (other : y ≠ .proc proc) : s.link.Same (s.link.addBefore .procList (.proc proc)) y :=
  Links.addBefore_same lists.procs (List.mem_cons_self ..) outside other

theorem insert_buckets (lists : Lists s l) (proc : Nat) {i : Nat} (small : i < hashListSize) :
    (s.link.addBefore .procList (.proc proc)).IsRing (.hashList i) ((s.bucket l i).map .hash) := by
  refine (lists.buckets i small).congr (fun y member => lists.insert_same ?_ ?_)
  · intro inside
    rcases List.mem_cons.mp member with rfl | hashed
    · simp at inside
    · obtain ⟨t, -, rfl⟩ := List.mem_map.mp hashed
      simp at inside
  · rintro rfl
    simp at member

/-- The insertions leave the sibling nodes. -/
theorem addNodes_sib (lists : Lists s l) (proc t : Nat) : s.link.Same (s.addNodes proc).link (.sib t) := by
  have one : s.link.Same (s.link.addBefore .procList (.proc proc)) (.sib t) := lists.insert_same (by simp) (by simp)
  refine one.trans (Links.addBefore_same (lists.insert_buckets proc (pidHash_lt _)) (List.mem_cons_self ..) ?_ ?_)
  · simp
  · simp

theorem addNodes (lists : Lists s l) {proc : Nat} (new : proc ∉ l) : Lists (s.addNodes proc) (l ++ [proc]) := by
  have bound := pidHash_lt (s.task proc).pid
  have newProc : TaskNode.proc proc ∉ TaskNode.procList :: l.map TaskNode.proc := by simpa using new
  have bucketed : ∀ i, s.bucket (l ++ [proc]) i =
      s.bucket l i ++ if pidHash (s.task proc).pid = i then [proc] else [] := by
    intro i
    rw [bucket, List.filter_append, bucket]
    split
    · rename_i here
      simp [here]
    · rename_i other
      simp [other]
  have procs := lists.procs.addBefore_head newProc
  have target := lists.insert_buckets proc bound
  have second : ∀ y, y ∉ TaskNode.hashList (pidHash (s.task proc).pid) ::
      (s.bucket l (pidHash (s.task proc).pid)).map TaskNode.hash → y ≠ .hash proc →
      (s.link.addBefore .procList (.proc proc)).Same (s.addNodes proc).link y := fun y outside other =>
    Links.addBefore_same target (List.mem_cons_self ..) outside other
  refine ⟨?_, fun i small => ?_, fun y sib => ?_⟩
  · rw [List.map_append]
    refine procs.congr (fun y member => second y ?_ ?_)
    · rintro inside
      rcases List.mem_cons.mp member with rfl | listed
      · simp at inside
      · simp only [List.mem_append, List.mem_map, List.mem_singleton] at listed
        rcases listed with ⟨t, -, rfl⟩ | rfl <;> simp at inside
    · rintro rfl
      simp at member
  · rw [show (s.addNodes proc).bucket (l ++ [proc]) i = _ from bucketed i]
    by_cases here : pidHash (s.task proc).pid = i
    · subst here
      rw [if_pos rfl, List.map_append]
      refine target.addBefore_head ?_
      simp only [bucket, List.mem_cons, List.mem_map, List.mem_filter, reduceCtorEq, TaskNode.hash.injEq, false_or,
        not_exists, not_and]
      rintro t ⟨inside, -⟩ rfl
      exact new inside
    · rw [if_neg here, List.append_nil]
      refine (lists.insert_buckets proc small).congr (fun y member => second y ?_ ?_)
      · intro inside
        rcases List.mem_cons.mp member with rfl | hashed
        · simp at inside
          exact here inside.symm
        · obtain ⟨t, inBucket, rfl⟩ := List.mem_map.mp hashed
          simp only [bucket, List.mem_cons, List.mem_map, List.mem_filter, reduceCtorEq, TaskNode.hash.injEq, false_or,
            exists_eq_right, decide_eq_true_eq] at inside inBucket
          exact here (inside.2.symm.trans inBucket.2)
      · rintro rfl
        simp only [bucket, List.mem_cons, List.mem_map, List.mem_filter, reduceCtorEq, TaskNode.hash.injEq, false_or,
          exists_eq_right] at member
        exact new member.1
  · obtain ⟨t, rfl⟩ := sib
    have same := lists.addNodes_sib proc t
    rw [same.1, same.2]
    exact lists.sibs _ ⟨t, rfl⟩

/-- The bucket of a process has it between the others. -/
theorem bucket_middle (s : TaskSet) (xs ys : List Nat) (proc i : Nat) : s.bucket (xs ++ proc :: ys) i =
    s.bucket xs i ++ (if pidHash (s.task proc).pid = i then [proc] else []) ++ s.bucket ys i := by
  rw [bucket, List.filter_append, bucket, bucket]
  split
  · rename_i here
    simp [here]
  · rename_i other
    simp [other]

/-- The deletion from the global list leaves the other nodes. -/
theorem delete_same {xs ys : List Nat} {proc : Nat} (lists : Lists s (xs ++ proc :: ys)) {y : TaskNode}
    (outside : y ∉ TaskNode.procList :: (xs ++ proc :: ys).map TaskNode.proc) :
    s.link.Same (s.link.delInit (.proc proc)) y :=
  Links.delInit_same lists.procs (by simp) outside

theorem delete_buckets {xs ys : List Nat} {proc i : Nat} (lists : Lists s (xs ++ proc :: ys)) (small : i < hashListSize) :
    (s.link.delInit (.proc proc)).IsRing (.hashList i) ((s.bucket (xs ++ proc :: ys) i).map .hash) := by
  refine (lists.buckets i small).congr (fun y member => lists.delete_same (fun inside => ?_))
  rcases List.mem_cons.mp member with rfl | hashed
  · simp at inside
  · obtain ⟨t, -, rfl⟩ := List.mem_map.mp hashed
    simp at inside

theorem delete_bucket {xs ys : List Nat} {proc : Nat} (lists : Lists s (xs ++ proc :: ys)) :
    (s.link.delInit (.proc proc)).IsRing (.hashList (pidHash (s.task proc).pid))
      ((s.bucket xs (pidHash (s.task proc).pid)).map TaskNode.hash ++
        TaskNode.hash proc :: (s.bucket ys (pidHash (s.task proc).pid)).map .hash) := by
  have target := lists.delete_buckets (pidHash_lt (s.task proc).pid)
  rwa [bucket_middle, if_pos rfl, List.append_assoc, List.map_append, List.map_append] at target

/-- The deletions leave the sibling nodes. -/
theorem delNodes_sib {xs ys : List Nat} {proc : Nat} (lists : Lists s (xs ++ proc :: ys)) (t : Nat) :
    s.link.Same (s.delNodes proc).link (.sib t) :=
  (lists.delete_same (by simp)).trans (Links.delInit_same lists.delete_bucket (by simp) (by simp))

theorem delNodes {xs ys : List Nat} {proc : Nat} (lists : Lists s (xs ++ proc :: ys)) :
    Lists (s.delNodes proc) (xs ++ ys) := by
  have nodup : (xs ++ proc :: ys).Nodup := (List.nodup_cons.mp lists.procs.2).2.of_map
  have gone : proc ∉ xs ++ ys := (List.nodup_middle.mp nodup).notMem
  have bound := pidHash_lt (s.task proc).pid
  have source : s.link.IsRing .procList (xs.map .proc ++ TaskNode.proc proc :: ys.map .proc) := by
    simpa using lists.procs
  have bucketed := bucket_middle s xs ys proc
  have together : ∀ i, (s.delNodes proc).bucket (xs ++ ys) i = s.bucket xs i ++ s.bucket ys i := fun i =>
    List.filter_append ..
  have target := lists.delete_bucket
  generalize index : pidHash (s.task proc).pid = h at bound bucketed target
  have second : ∀ y, y ∉ TaskNode.hashList h :: ((s.bucket xs h).map TaskNode.hash ++
      TaskNode.hash proc :: (s.bucket ys h).map .hash) →
      (s.link.delInit (.proc proc)).Same (s.delNodes proc).link y := fun y outside =>
    Links.delInit_same target (by simp) (by simpa using outside)
  refine ⟨?_, fun i small => ?_, fun y sib => ?_⟩
  · rw [List.map_append]
    refine source.delInit.congr (fun y member => second y (fun inside => ?_))
    rcases List.mem_cons.mp member with rfl | listed
    · simp at inside
    · simp only [List.mem_append, List.mem_map] at listed
      rcases listed with ⟨t, -, rfl⟩ | ⟨t, -, rfl⟩ <;> simp at inside
  · rw [together, List.map_append]
    by_cases here : h = i
    · subst here
      exact target.delInit
    · have same := bucketed i
      rw [if_neg here, List.append_nil] at same
      have ring := lists.delete_buckets small
      rw [same, List.map_append] at ring
      refine ring.congr (fun y member => second y (fun inside => ?_))
      rcases List.mem_cons.mp member with rfl | hashed
      · simp at inside
        exact here inside.symm
      · rw [← List.map_append] at hashed
        obtain ⟨t, inBucket, rfl⟩ := List.mem_map.mp hashed
        rw [← same] at inBucket
        have there : t ∈ s.bucket (xs ++ proc :: ys) h := by
          rw [bucketed, if_pos rfl]
          simpa [or_assoc] using inside
        simp only [bucket, List.mem_filter, decide_eq_true_eq] at inBucket there
        exact here (there.2.symm.trans inBucket.2)
  · obtain ⟨t, rfl⟩ := sib
    have same := lists.delNodes_sib t
    rw [same.1, same.2]
    exact lists.sibs _ ⟨t, rfl⟩

theorem addProcess {proc parent : Nat} (lists : Lists s l) (new : proc ∉ l)
    (done : s.addProcess proc parent = .ok s') : Lists s' (l ++ [proc]) ∧ s'.procNum = s.procNum + 1 := by
  rw [TaskSet.addProcess] at done
  split at done
  · cases done
  · obtain ⟨s₁, hung, rest⟩ := Res.bind_eq_ok.mp done
    cases rest
    have tree := (treeOnly_parent (s.addNodes proc) proc parent).trans (treeOnly_addChild hung)
    have kept := ((lists.addNodes new).treeOnly tree).treeOnly (treeOnly_numChild s₁ parent ((s₁.task parent).numChild + 1))
    exact ⟨⟨kept.procs, kept.buckets, kept.sibs⟩, congrArg (· + 1) tree.num⟩

theorem removeProcess {xs ys : List Nat} {proc : Nat} (lists : Lists s (xs ++ proc :: ys))
    (done : s.removeProcess proc = .ok s') : Lists s' (xs ++ ys) ∧ s'.procNum = s.procNum - 1 := by
  simp only [TaskSet.removeProcess] at done
  split at done
  · cases done
  · split at done
    · cases done
    · obtain ⟨s₁, passed, rest⟩ := Res.bind_eq_ok.mp done
      obtain ⟨⟨t, s₂⟩, loop, rest₂⟩ := Res.bind_eq_ok.mp rest
      split at rest₂
      · cases rest₂
      · obtain ⟨s₃, given, rest₃⟩ := Res.bind_eq_ok.mp rest₂
        cases rest₃
        have looped := treeOnly_eachSibling (fun s t => treeOnly_numSibling s t _) loop
        have tree := ((treeOnly_passFirstChild passed).trans (treeOnly_numChild ..)).trans looped
        have unlinked := tree.trans (treeOnly_link fun closed => closed.delInit ⟨proc, rfl⟩)
        have whole := unlinked.trans (treeOnly_giveChildren given)
        have kept := lists.delNodes.treeOnly whole
        exact ⟨⟨kept.procs, kept.buckets, kept.sibs⟩, congrArg (· - 1) whole.num⟩

theorem initHashLists_keeps (L : Links TaskNode) (n : Nat) :
    (∀ i, i < n → (initHashLists L n).IsRing (.hashList i) []) ∧
      ∀ y, (∀ i, y ≠ .hashList i) → L.Same (initHashLists L n) y := by
  induction n with
  | zero => exact ⟨fun i small => by omega, fun y _ => .refl L y⟩
  | succ n ih =>
    refine ⟨fun i small => ?_, fun y other => (ih.2 y other).trans (Links.init_same _ (other n))⟩
    by_cases last : i = n
    · rw [last]
      exact Links.init_ring _ _
    · refine (ih.1 i (by omega)).congr (fun y member => Links.init_same _ ?_)
      rw [List.mem_singleton] at member
      rw [member]
      simpa using last

theorem tasklistInit (sibs : s.link.Closed IsSib) : Lists s.tasklistInit [] := by
  obtain ⟨rings, same⟩ := initHashLists_keeps (s.link.init .procList) hashListSize
  refine ⟨(Links.init_ring s.link .procList).congr (fun y member => same y ?_), rings, ?_⟩
  · rw [List.mem_singleton] at member
    simp [member]
  · rintro y ⟨t, rfl⟩
    have two := same (.sib t) (by simp)
    have one := Links.init_same s.link (show TaskNode.sib t ≠ .procList by simp)
    rw [show s.tasklistInit.link = initHashLists (s.link.init .procList) hashListSize from rfl, two.1, two.2, one.1, one.2]
    exact sibs _ ⟨t, rfl⟩

end Lists

/-- `task_new` takes the memory of a task that is not listed, and its owner fills it in. -/
def taskNew (s : TaskSet) (t : Nat) (v : Task) : TaskSet :=
  { s.setTask t v with link := ((s.link.init (.sib t)).init (.proc t)).init (.hash t) }

theorem Lists.taskNew {s : TaskSet} {l : List Nat} (lists : Lists s l) {t : Nat} (unlisted : t ∉ l) (v : Task) :
    Lists (s.taskNew t v) l := by
  have same : ∀ y, y ≠ .sib t → y ≠ .proc t → y ≠ .hash t → s.link.Same (s.taskNew t v).link y := fun y one two three =>
    ((Links.init_same _ one).trans (Links.init_same _ two)).trans (Links.init_same _ three)
  refine ⟨lists.procs.congr (fun y member => ?_), fun i bound => ?_, ?_⟩
  · refine same y ?_ ?_ ?_ <;> rintro rfl <;> simp at member
    exact unlisted member
  · have pids : (s.taskNew t v).bucket l i = s.bucket l i := by
      refine List.filter_congr (fun u listed => ?_)
      have other : u ≠ t := fun same => unlisted (same ▸ listed)
      simp [TaskSet.taskNew, setTask, other]
    rw [pids]
    refine (lists.buckets i bound).congr (fun y member => ?_)
    refine same y ?_ ?_ ?_ <;> rintro rfl <;> simp at member
    exact unlisted (List.mem_filter.mp member).1
  · rintro y ⟨u, rfl⟩
    by_cases here : u = t
    · subst here
      simp [TaskSet.taskNew, Links.init, IsSib]
    · have kept := same (.sib u) (by simpa using here) (by simp) (by simp)
      rw [kept.1, kept.2]
      exact lists.sibs _ ⟨u, rfl⟩

end Xv6.TaskSet

namespace Xv6

/-- Runs on the process lists from `tasklist_init` on, of calls that return. Before
it no process is counted and the sibling nodes lead to sibling nodes, as `task_new`
leaves them. The list holds the processes in order of addition. -/
inductive ListRun : TaskSet → List Nat → Prop
  | init {s : TaskSet} (zero : s.procNum = 0) (sibs : s.link.Closed TaskSet.IsSib) : ListRun s.tasklistInit []
  | create {s : TaskSet} {l : List Nat} {t : Nat} (v : Task) (init : Option Nat) (run : ListRun s l)
      (unlisted : t ∉ l) : ListRun { s.taskNew t v with initproc := init } l
  | add {s s' : TaskSet} {l : List Nat} {proc parent : Nat} (run : ListRun s l) (new : proc ∉ l)
      (done : s.addProcess proc parent = .ok s') : ListRun s' (l ++ [proc])
  | remove {s s' : TaskSet} {xs ys : List Nat} {proc : Nat} (run : ListRun s (xs ++ proc :: ys))
      (done : s.removeProcess proc = .ok s') : ListRun s' (xs ++ ys)

/-- Each process is once in the global list, which is in order of addition, and once
in the bucket of its pid and in no other. -/
structure Indexed (s : TaskSet) (l : List Nat) : Prop where
  once : l.Nodup
  order : s.link.IsRing .procList (l.map .proc)
  bound : ∀ t, pidHash (s.task t).pid < hashListSize
  buckets : ∀ i, i < hashListSize → ∃ b : List Nat, s.link.IsRing (.hashList i) (b.map .hash) ∧
    ∀ t, b.count t = if t ∈ l ∧ pidHash (s.task t).pid = i then 1 else 0
  count : s.procNum = l.length

/-- The process lists are complete in every run. -/
theorem ListRun.processIndexed {s : TaskSet} {l : List Nat} (run : ListRun s l) : Indexed s l := by
  have kept : s.Lists l ∧ s.procNum = l.length := by
    induction run with
    | init zero sibs => exact ⟨.tasklistInit sibs, zero⟩
    | create v init _ unlisted ih =>
      have made := ih.1.taskNew unlisted v
      exact ⟨⟨made.procs, made.buckets, made.sibs⟩, ih.2⟩
    | add _ new done ih =>
      obtain ⟨lists, num⟩ := ih.1.addProcess new done
      exact ⟨lists, by rw [num, ih.2, List.length_append, List.length_singleton]⟩
    | remove _ done ih =>
      obtain ⟨lists, num⟩ := ih.1.removeProcess done
      refine ⟨lists, ?_⟩
      rw [num, ih.2]
      simp only [List.length_append, List.length_cons]
      omega
  obtain ⟨lists, count⟩ := kept
  have once : l.Nodup := (List.nodup_cons.mp lists.procs.2).2.of_map
  refine ⟨once, lists.procs, fun t => TaskSet.pidHash_lt _, fun i small => ⟨_, lists.buckets i small, fun t => ?_⟩, count⟩
  split
  · rename_i here
    exact List.count_eq_one_of_mem (once.filter _) (List.mem_filter.mpr ⟨here.1, by simpa using here.2⟩)
  · rename_i other
    refine List.count_eq_zero.mpr (fun inside => other ?_)
    have both := List.mem_filter.mp inside
    exact ⟨both.1, by simpa using both.2⟩

namespace TaskSet

/-- A task with the pid, and init is 7. -/
def created (s : TaskSet) (t parent : Nat) (pid : Int) : TaskSet :=
  { s.taskNew t ⟨0, pid, parent, none, 0, 0⟩ with initproc := some 7 }

/-- The task goes below the parent. -/
def born (s : TaskSet) (t parent : Nat) (pid : Int) : TaskSet :=
  ((s.created t parent pid).addProcess t parent).value (s.created t parent pid)

def gone (s : TaskSet) (t : Nat) : TaskSet := (s.removeProcess t).value s

def blank : TaskSet := ⟨⟨id, id⟩, fun _ => ⟨0, 0, 0, none, 0, 0⟩, 0, none⟩

/-- Each process but init is a child of the one before it. The pids of 8 and 10 are in one bucket. -/
def family : TaskSet := (((blank.tasklistInit.born 7 7 (-3)).born 8 7 2).born 9 8 5).born 10 9 57

end TaskSet

namespace ListRun

variable {s : TaskSet} {l xs ys : List Nat} {t : Nat}

theorem born (run : ListRun s l) (parent : Nat) (pid : Int) (new : t ∉ l)
    (returns : ((s.created t parent pid).addProcess t parent).isOk = true) : ListRun (s.born t parent pid) (l ++ [t]) :=
  (run.create ⟨0, pid, parent, none, 0, 0⟩ (some 7) new).add new (Res.eq_value (s.created t parent pid) returns)

theorem gone (run : ListRun s (xs ++ t :: ys)) (returns : (s.removeProcess t).isOk = true) : ListRun (s.gone t) (xs ++ ys) :=
  run.remove (Res.eq_value s returns)

theorem family : ListRun TaskSet.family [7, 8, 9, 10] := by
  have init : ListRun TaskSet.blank.tasklistInit [] := .init rfl fun y sib => ⟨sib, sib⟩
  have seven := init.born (t := 7) 7 (-3) (by decide) (by decide +kernel)
  have eight := seven.born (t := 8) 7 2 (by decide) (by decide +kernel)
  have nine := eight.born (t := 9) 8 5 (by decide) (by decide +kernel)
  exact nine.born (t := 10) 9 57 (by decide) (by decide +kernel)

/-- A process leaves the lists whose bucket has another one. -/
theorem processIndexed_family : ∃ s, ListRun s [7, 9, 10] ∧ pidHash (s.task 8).pid = pidHash (s.task 10).pid ∧
    Indexed s [7, 9, 10] := by
  have run : ListRun (TaskSet.family.gone 8) ([7] ++ [9, 10]) := family.gone (by decide +kernel)
  exact ⟨TaskSet.family.gone 8, run, by decide +kernel, run.processIndexed⟩

end ListRun

end Xv6
