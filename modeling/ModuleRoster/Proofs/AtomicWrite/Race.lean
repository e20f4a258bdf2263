import Mathlib.Control.Monad.Basic
import Mathlib.Data.List.Induction
import ModuleRoster.Proofs.AtomicWrite.Steps
import ModuleRoster.Proofs.FileTree.Moved
import ModuleRoster.Proofs.FileTree.Named

/-!
# Proofs/AtomicWrite/Race — calls on one path that take turns

Several calls write to one path at the same time, each under a temporary name of its own, and any of
them may do its next step or break off.  `Race.run` takes them through an order of turns.

At every moment the entry of the path is the one of the start, or it is a file with the whole content
of the call that moved its file last (`Race.run_showsLast`).  What carries this is that a turn
changes the tree at the place of the call's own temporary name, and at that of the path only by
moving a finished file there (`Race.leaves_step`); so no call disturbs what another one knows of its
file (`Race.Knows.of_elsewhere`).

A path that goes through its own entry loses its way when the entry is replaced, and the temporary
names lose theirs.  The file of a call that comes too late then stays where it is
(`Race.not_run_showsLast_through_itself`).
-/

namespace ModuleRoster

open FileTree

/-- **Calls on one path**, with temporary names that differ and at which nothing stands. -/
structure Race (ι : Type) where
  tree : FileTree
  path : Text
  call : ι → Call
  temporary : ι → Text
  onPath : ∀ i, (call i).write.path = path
  named : ∀ i, (call i).temporaryName? = some (temporary i)
  distinct : ∀ i j, temporary i = temporary j → i = j
  vacant : ∀ i, tree.IsVacant (temporary i)

namespace Race

/-- **A moment**: the tree, how far each call has come, and the calls that have moved their files,
the latest first. -/
structure State (ι : Type) where
  tree : FileTree
  phase : ι → Phase
  moved : List ι

section

variable {ι : Type} (r : Race ι)

/-- No call has begun. -/
def start : State ι := ⟨r.tree, fun _ => .starting, []⟩

/-- **A turn of one of the calls.** -/
def turn [DecidableEq ι] (s : State ι) (i : ι) (move : Move) : State ι :=
  let (phase, tree) := (s.phase i).step (r.call i).write (r.temporary i) move s.tree
  { tree
    phase := Function.update s.phase i phase
    moved := if phase.succeeded && !(s.phase i).succeeded then i :: s.moved else s.moved }

/-- **The moment after some turns**, in this order. -/
def run [DecidableEq ι] (schedule : List (ι × Move)) : State ι :=
  schedule.foldl (fun s turn => r.turn s turn.1 turn.2) r.start

/-- **What the path shows**: the entry of the start if no call has moved its file, and otherwise the
whole content of the one that moved last. -/
def Shows (tree : FileTree) : List ι → Prop
  | [] => ∀ place, r.tree.Names r.path place → tree.get? place = r.tree.get? place
  | last :: _ => ∃ place bytes, r.tree.Names r.path place ∧
      (r.call last).write.content = .ok bytes ∧ tree.get? place = some (.file bytes)

/-! ## Places -/

variable {r} {i j : ι} {tree tree' : FileTree} {place file : Place} {entry : Entry}
  {phase phase' : Phase}

theorem temporary_eq_append (i : ι) :
    ∃ suffix, r.temporary i = r.path ++ suffix ∧ '/' ∉ suffix ∧ '-' ∈ suffix := by
  have named := r.named i
  unfold Call.temporaryName? at named
  rcases htemporary : temporaryName (r.call i).write.path (r.call i).pid (r.call i).now with _ | _
  · simp [htemporary, Except.toOption] at named
  · obtain rfl := Option.some.inj (htemporary ▸ named)
    exact r.onPath i ▸ temporaryName_eq_append htemporary

/-- Two calls do not share a place. -/
theorem eq_of_names (h : r.tree.Names (r.temporary i) place)
    (h' : r.tree.Names (r.temporary j) place) : i = j := by
  obtain ⟨suffix, htemporary, noSlash, hyphen⟩ := r.temporary_eq_append i
  obtain ⟨suffix', htemporary', noSlash', hyphen'⟩ := r.temporary_eq_append j
  rw [htemporary] at h
  rw [htemporary'] at h'
  obtain rfl := h.suffix_unique noSlash hyphen noSlash' hyphen' h'
  exact r.distinct i j (htemporary.trans htemporary'.symm)

/-- The path and a temporary name do not share one either. -/
theorem path_ne (h : r.tree.Names r.path place) (h' : r.tree.Names (r.temporary i) file) :
    place ≠ file := by
  obtain ⟨suffix, htemporary, noSlash, hyphen⟩ := r.temporary_eq_append i
  exact h.ne_append noSlash hyphen (htemporary ▸ h')

theorem isVacant_temporary_iff :
    tree.IsVacant (r.temporary i) ↔
      ∀ place, tree.Names (r.temporary i) place → tree.get? place = none := by
  obtain ⟨suffix, htemporary, noSlash, hyphen⟩ := r.temporary_eq_append i
  rw [htemporary]
  exact isVacant_append_iff noSlash hyphen

/-- Nothing but a file can come to stand at a temporary name. -/
theorem isFile_of_names (ways : r.tree.HasWays tree) (h : tree.Names (r.temporary i) place)
    (hentry : tree.get? place = some entry) : ∃ content, entry = .file content := by
  have nothing := isVacant_temporary_iff.1 (r.vacant i) _ (h.mono ways)
  cases entry with
  | file content => exact ⟨content, rfl⟩
  | directory => exact nomatch nothing.symm.trans (ways _ _ hentry nofun)
  | link target => exact nomatch nothing.symm.trans (ways _ _ hentry nofun)

theorem Shows.of_kept {moved : List ι}
    (kept : ∀ place, r.tree.Names r.path place → tree'.get? place = tree.get? place)
    (shows : r.Shows tree moved) : r.Shows tree' moved := by
  cases moved with
  | nil => exact fun place hplace => (kept place hplace).trans (shows place hplace)
  | cons last earlier =>
      obtain ⟨place, bytes, hplace, hcontent, hfile⟩ := shows
      exact ⟨place, bytes, hplace, hcontent, (kept place hplace).trans hfile⟩

/-! ## What a call knows -/

/-- **What a call knows of its temporary file**, by how far it has come. -/
def Knows (r : Race ι) (i : ι) (tree : FileTree) : Phase → Prop
  | .starting | .ended _ => tree.IsVacant (r.temporary i)
  | .opened file => r.tree.Names (r.temporary i) file ∧ tree.get? file = some (.file [])
  | .filling file ahead => r.tree.Names (r.temporary i) file ∧ ∃ done,
      (r.call i).write.content = .ok (done ++ ahead) ∧ tree.get? file = some (.file done)
  | .flushed | .synced => ∃ file bytes, r.tree.Names (r.temporary i) file ∧
      (r.call i).write.content = .ok bytes ∧ tree.get? file = some (.file bytes)
  | .checking _ | .removing _ => True

/-- A temporary name stays vacant when no way is made and nothing is put there. -/
theorem isVacant_of_elsewhere (ways : r.tree.HasWays tree) (ways' : tree.HasWays tree')
    (elsewhere : ∀ place, r.tree.Names (r.temporary i) place → tree'.get? place = tree.get? place)
    (vacant : tree.IsVacant (r.temporary i)) : tree'.IsVacant (r.temporary i) := by
  refine isVacant_temporary_iff.2 fun place h => ?_
  have hbefore := h.mono ways'
  exact (elsewhere place (hbefore.mono ways)).trans (isVacant_temporary_iff.1 vacant place hbefore)

/-- **What is done elsewhere does not change what a call knows.** -/
theorem Knows.of_elsewhere (ways : r.tree.HasWays tree) (ways' : tree.HasWays tree')
    (elsewhere : ∀ place, r.tree.Names (r.temporary i) place → tree'.get? place = tree.get? place)
    (knows : r.Knows i tree phase) : r.Knows i tree' phase := by
  cases phase with
  | starting => exact isVacant_of_elsewhere ways ways' elsewhere knows
  | opened file =>
      obtain ⟨hnames, hfile⟩ := knows
      exact ⟨hnames, (elsewhere file hnames).trans hfile⟩
  | filling file ahead =>
      obtain ⟨hnames, done, hcontent, hfile⟩ := knows
      exact ⟨hnames, done, hcontent, (elsewhere file hnames).trans hfile⟩
  | flushed =>
      obtain ⟨file, bytes, hnames, hcontent, hfile⟩ := knows
      exact ⟨file, bytes, hnames, hcontent, (elsewhere file hnames).trans hfile⟩
  | synced =>
      obtain ⟨file, bytes, hnames, hcontent, hfile⟩ := knows
      exact ⟨file, bytes, hnames, hcontent, (elsewhere file hnames).trans hfile⟩
  | checking failure => trivial
  | removing failure => trivial
  | ended result => exact isVacant_of_elsewhere ways ways' elsewhere knows

theorem Knows.isVacant (knows : r.Knows i tree phase) (ended : phase.hasEnded = true) :
    tree.IsVacant (r.temporary i) := by
  cases phase <;> first | exact knows | cases ended

/-! ## What a turn leaves -/

/-- **What a turn of a call leaves of the tree.**  It makes no way, it keeps to its places, and it
keeps off the place of the path until it moves its file there. -/
structure Leaves (r : Race ι) (i : ι) (phase phase' : Phase) (tree tree' : FileTree) : Prop where
  ways : tree.HasWays tree'
  knows : r.Knows i tree' phase'
  others : ∀ place, ¬r.tree.Names (r.temporary i) place → ¬r.tree.Names r.path place →
    tree'.get? place = tree.get? place
  path : (phase'.succeeded = phase.succeeded ∧
      ∀ place, r.tree.Names r.path place → tree'.get? place = tree.get? place) ∨
    phase.succeeded = false ∧ phase'.succeeded = true ∧
      ∃ place bytes, r.tree.Names r.path place ∧ (r.call i).write.content = .ok bytes ∧
        tree'.get? place = some (.file bytes)

/-- A turn that does not touch the tree. -/
theorem Leaves.of_same (knows : r.Knows i tree phase') (same : phase'.succeeded = phase.succeeded) :
    r.Leaves i phase phase' tree tree where
  ways := fun _ _ hentry _ => hentry
  knows := knows
  others := fun _ _ _ => rfl
  path := Or.inl ⟨same, fun _ _ => rfl⟩

/-- A turn that changes the temporary file. -/
theorem Leaves.of_own (h : r.tree.Names (r.temporary i) file) (ways : tree.HasWays tree')
    (elsewhere : ∀ place, place ≠ file → tree'.get? place = tree.get? place)
    (knows : r.Knows i tree' phase') (same : phase'.succeeded = phase.succeeded) :
    r.Leaves i phase phase' tree tree' where
  ways := ways
  knows := knows
  others := fun place hplace _ => elsewhere place fun heq => hplace (heq ▸ h)
  path := Or.inl ⟨same, fun place hplace => elsewhere place (path_ne hplace h)⟩

/-- **A file is made** at a vacant temporary name. -/
theorem leaves_create (ways : r.tree.HasWays tree) (vacant : tree.IsVacant (r.temporary i))
    (hcreate : tree.create (r.temporary i) = .ok (file, tree')) :
    r.Leaves i .starting (.opened file) tree tree' := by
  obtain ⟨folder, name, entry, hfinds, -, rfl, rfl⟩ := create_eq_ok_iff.1 hcreate
  have hnames := ((vacant.finds hfinds).2.names).mono ways
  have hget := get?_insert tree (List.cons_ne_nil name folder) (.file [])
  refine .of_own hnames (hasWays_of_insert_file (List.cons_ne_nil name folder))
    (fun place hplace => by rw [hget, if_neg hplace]) ⟨hnames, ?_⟩ rfl
  rw [hget, if_pos rfl]

/-- **A piece is written.** -/
theorem leaves_append {b : UInt8} {ahead : Bytes} (size : Nat)
    (knows : r.Knows i tree (.filling file (b :: ahead))) :
    r.Leaves i (.filling file (b :: ahead)) (.filling file (ahead.drop size)) tree
      (tree.append file (b :: ahead.take size)) := by
  obtain ⟨hnames, done, hcontent, hfile⟩ := knows
  have happend : tree.append file (b :: ahead.take size)
      = tree.insert file (.file (done ++ b :: ahead.take size)) := by rw [append, hfile]
  have hget := get?_insert tree hnames.ne_nil (.file (done ++ b :: ahead.take size))
  rw [happend]
  refine .of_own hnames (hasWays_of_insert_file hnames.ne_nil)
    (fun place hplace => by rw [hget, if_neg hplace]) ⟨hnames, _, ?_, by rw [hget, if_pos rfl]⟩ rfl
  rw [hcontent, List.append_assoc, List.cons_append, List.take_append_drop]

/-- **A finished file is moved** to the path. -/
theorem leaves_rename (ways : r.tree.HasWays tree) (knows : r.Knows i tree .synced)
    (hrename : tree.rename (r.temporary i) r.path = .ok tree') :
    r.Leaves i .synced (.ended (.ok ())) tree tree' := by
  obtain ⟨file, bytes, hnames, hcontent, hfile⟩ := knows
  obtain ⟨_, _, entry, _, _, _, hsource, -, htarget, -, rfl⟩ := rename_eq_ok_iff.1 hrename
  -- what is at the temporary name is the file that was written
  obtain rfl := hnames.unique (hsource.names.mono ways)
  obtain rfl : entry = .file bytes :=
    Option.some.inj ((find_eq_ok_iff.1 hsource.found).2.symm.trans hfile)
  have hpath := htarget.names.mono ways
  have hne := path_ne hpath hnames
  have ways' : tree.HasWays ((tree.erase _).insert _ (.file bytes)) :=
    hasWays_of_move_file hnames.ne_nil hpath.ne_nil
  have hget := fun place => (get?_insert (tree.erase _) hpath.ne_nil (.file bytes) place).trans
    (congrArg _ (get?_erase tree hnames.ne_nil place))
  refine ⟨ways', isVacant_temporary_iff.2 fun place hplace => ?_, fun place hplace hplace' => ?_,
    Or.inr ⟨rfl, rfl, _, bytes, hpath, hcontent, by rw [hget, if_pos rfl]⟩⟩
  · obtain rfl := hnames.unique ((hplace.mono ways').mono ways)
    rw [hget, if_neg hne.symm, if_pos rfl]
  · have hoff : place ≠ _ := fun heq => hplace' (heq ▸ hpath)
    have hoff' : place ≠ _ := fun heq => hplace (heq ▸ hnames)
    rw [hget, if_neg hoff, if_neg hoff']

/-- A temporary name that leads to nothing is vacant. -/
theorem isVacant_of_not_leadsTo (ways : r.tree.HasWays tree)
    (leads : tree.leadsTo (r.temporary i) = false) : tree.IsVacant (r.temporary i) := by
  refine isVacant_temporary_iff.2 fun place hnames => ?_
  rcases hentry : tree.get? place with _ | entry
  · rfl
  obtain ⟨content, rfl⟩ := isFile_of_names ways hnames hentry
  obtain ⟨folder, name, rfl, hfinds⟩ := hnames
  rw [hentry] at hfinds
  exact nomatch leads.symm.trans (leadsTo_of_file (hfinds.of_entry nofun))

/-- One that nothing is removed from is vacant, too. -/
theorem isVacant_of_remove_error {fault : PathFault} (ways : r.tree.HasWays tree)
    (hremove : tree.remove (r.temporary i) = .error fault) : tree.IsVacant (r.temporary i) := by
  refine isVacant_temporary_iff.2 fun place hnames => ?_
  rcases hentry : tree.get? place with _ | entry
  · rfl
  obtain ⟨content, rfl⟩ := isFile_of_names ways hnames hentry
  obtain ⟨folder, name, rfl, hfinds⟩ := hnames
  rw [hentry] at hfinds
  exact nomatch hremove.symm.trans (remove_eq_ok_iff.2 ⟨folder, name, _, hfinds, nofun, rfl⟩)

/-- **The temporary file is removed.** -/
theorem leaves_remove {failure : Failure} (ways : r.tree.HasWays tree)
    (hremove : tree.remove (r.temporary i) = .ok tree') :
    r.Leaves i (.removing failure) (.ended (.error failure)) tree tree' := by
  obtain ⟨folder, name, entry, hfinds, -, rfl⟩ := remove_eq_ok_iff.1 hremove
  have hnames := hfinds.names.mono ways
  have ways' : tree.HasWays (tree.erase (name :: folder)) :=
    hasWays_of_erase (List.cons_ne_nil name folder)
  have hget := get?_erase tree (List.cons_ne_nil name folder)
  refine .of_own hnames ways' (fun place hplace => by rw [hget, if_neg hplace])
    (isVacant_temporary_iff.2 fun place hplace => ?_) rfl
  rw [hget, if_pos ((hplace.mono ways').mono ways |>.unique hnames)]

/-- **The next step of a call**, from what it knows. -/
theorem leaves_next (ways : r.tree.HasWays tree) (size : Nat) (knows : r.Knows i tree phase) :
    r.Leaves i phase (phase.next (r.call i).write (r.temporary i) size tree).1 tree
      (phase.next (r.call i).write (r.temporary i) size tree).2 := by
  cases phase with
  | starting =>
      rcases hcreate : tree.create (r.temporary i) with fault | ⟨file, made⟩ <;>
        simp only [Phase.next, hcreate]
      · exact .of_same trivial rfl
      · exact leaves_create ways knows hcreate
  | opened file =>
      obtain ⟨hnames, hfile⟩ := knows
      rcases hcontent : (r.call i).write.content with failure | bytes <;>
        simp only [Phase.next, hcontent]
      · exact .of_same trivial rfl
      · exact .of_same ⟨hnames, [], hcontent, hfile⟩ rfl
  | filling file ahead =>
      cases ahead with
      | nil =>
          obtain ⟨hnames, done, hcontent, hfile⟩ := knows
          exact .of_same ⟨file, done, hnames, by simpa using hcontent, hfile⟩ rfl
      | cons b ahead => exact leaves_append size knows
  | flushed => exact .of_same knows rfl
  | synced =>
      rcases hrename : tree.rename (r.temporary i) (r.call i).write.path with fault | swapped <;>
        simp only [Phase.next, hrename]
      · exact .of_same trivial rfl
      · exact leaves_rename ways knows (r.onPath i ▸ hrename)
  | checking failure =>
      cases hleads : tree.leadsTo (r.temporary i) <;>
        simp only [Phase.next, hleads, if_true, Bool.false_eq_true, if_false]
      · exact .of_same (isVacant_of_not_leadsTo ways hleads) rfl
      · exact .of_same trivial rfl
  | removing failure =>
      rcases hremove : tree.remove (r.temporary i) with fault | cleared <;>
        simp only [Phase.next, hremove]
      · exact .of_same (isVacant_of_remove_error ways hremove) rfl
      · exact leaves_remove ways hremove
  | ended result => exact .of_same knows rfl

/-- **A turn of a call**, from what it knows. -/
theorem leaves_step (ways : r.tree.HasWays tree) (move : Move) (knows : r.Knows i tree phase) :
    r.Leaves i phase (phase.step (r.call i).write (r.temporary i) move tree).1 tree
      (phase.step (r.call i).write (r.temporary i) move tree).2 := by
  cases move with
  | onward size => exact leaves_next ways size knows
  | breakOff failure =>
      rw [Phase.step]
      split
      next canBreak =>
        refine .of_same trivial ?_
        cases phase <;> first | rfl | cases canBreak
      next => exact .of_same knows rfl

/-! ## What holds at every moment -/

/-- **What holds at every moment of a race.** -/
structure Holds (r : Race ι) (s : State ι) : Prop where
  ways : r.tree.HasWays s.tree
  knows : ∀ i, r.Knows i s.tree (s.phase i)
  others : ∀ place, (∀ i, ¬r.tree.Names (r.temporary i) place) → ¬r.tree.Names r.path place →
    s.tree.get? place = r.tree.get? place
  shows : r.Shows s.tree s.moved
  moved : ∀ i, i ∈ s.moved ↔ (s.phase i).succeeded = true

theorem holds_start : r.Holds r.start where
  ways := fun _ _ hentry _ => hentry
  knows := r.vacant
  others := fun _ _ _ => rfl
  shows := fun _ _ => rfl
  moved := fun i => by simp [start, Phase.succeeded]

variable {s : State ι}

theorem turn_eq [DecidableEq ι] {move : Move}
    (h : (s.phase i).step (r.call i).write (r.temporary i) move s.tree = (phase, tree)) :
    r.turn s i move = ⟨tree, Function.update s.phase i phase,
      if phase.succeeded && !(s.phase i).succeeded then i :: s.moved else s.moved⟩ := by
  rw [turn, h]

/-- **The other calls are undisturbed**, because a turn keeps to the places of its own call and of the
path. -/
theorem Holds.knows_of_leaves [DecidableEq ι] (h : r.Holds s)
    (leaves : r.Leaves i (s.phase i) phase s.tree tree) (j : ι) :
    r.Knows j tree (Function.update s.phase i phase j) := by
  by_cases hj : j = i
  · subst hj
    simpa using leaves.knows
  · rw [Function.update_of_ne hj]
    refine (h.knows j).of_elsewhere h.ways leaves.ways fun place hplace => ?_
    exact leaves.others place (fun hi => hj (eq_of_names hplace hi)) fun hp => path_ne hp hplace rfl

/-- **A turn keeps it.** -/
theorem Holds.turn [DecidableEq ι] (h : r.Holds s) (i : ι) (move : Move) :
    r.Holds (r.turn s i move) := by
  have leaves := leaves_step h.ways move (h.knows i)
  rcases hstep : (s.phase i).step (r.call i).write (r.temporary i) move s.tree with ⟨phase, tree⟩
  rw [hstep] at leaves
  rw [turn_eq hstep]
  have knows := h.knows_of_leaves leaves
  have others : ∀ place, (∀ j, ¬r.tree.Names (r.temporary j) place) →
      ¬r.tree.Names r.path place → tree.get? place = r.tree.get? place := fun place ht hp =>
    (leaves.others place (ht i) hp).trans (h.others place ht hp)
  rcases leaves.path with ⟨same, kept⟩ | ⟨before, after, place, bytes, hplace, hcontent, hfile⟩
  · have hmoved : (phase.succeeded && !(s.phase i).succeeded) = false := by simp [same]
    rw [hmoved, if_neg Bool.false_ne_true]
    refine ⟨h.ways.trans leaves.ways, knows, others, h.shows.of_kept kept, fun j => ?_⟩
    by_cases hj : j = i
    · subst hj
      simpa [same] using h.moved j
    · simpa [hj] using h.moved j
  · have hmoved : (phase.succeeded && !(s.phase i).succeeded) = true := by simp [before, after]
    rw [hmoved, if_pos rfl]
    refine ⟨h.ways.trans leaves.ways, knows, others, ⟨place, bytes, hplace, hcontent, hfile⟩,
      fun j => ?_⟩
    by_cases hj : j = i
    · subst hj
      simp [after]
    · simpa [hj] using h.moved j

theorem run_concat [DecidableEq ι] (schedule : List (ι × Move)) (i : ι) (move : Move) :
    r.run (schedule ++ [(i, move)]) = r.turn (r.run schedule) i move := by
  simp [run, List.foldl_append]

/-- **It holds whatever the order of the turns.** -/
theorem holds_run [DecidableEq ι] (schedule : List (ι × Move)) : r.Holds (r.run schedule) := by
  -- the invariant is about the moment before the last turn, so the turns are taken off at the end
  induction schedule using List.reverseRecOn with
  | nil => exact holds_start
  | append_singleton schedule turn ih =>
      rw [run_concat]
      exact ih.turn turn.1 turn.2

/-! ## What stays named -/

/-- What stood off the path at the start stands there still. -/
theorem Holds.get?_eq (h : r.Holds s) (hentry : r.tree.get? place = some entry)
    (off : ¬r.tree.Names r.path place) : s.tree.get? place = some entry := by
  refine (h.others place (fun i hi => ?_) off).trans hentry
  exact nomatch hentry.symm.trans (isVacant_temporary_iff.1 (r.vacant i) place hi)

theorem Holds.hasWays (h : r.Holds s) (unmoved : s.moved = []) : s.tree.HasWays r.tree := by
  intro place entry hentry _
  by_cases hplace : r.tree.Names r.path place
  · have shows := h.shows
    rw [unmoved] at shows
    exact (shows place hplace).trans hentry
  · exact h.get?_eq hentry hplace

theorem Holds.hasWays_erase (h : r.Holds s) (hpath : r.tree.Names r.path place) :
    s.tree.HasWays (r.tree.erase place) := by
  intro other entry hentry _
  rw [get?_erase r.tree hpath.ne_nil] at hentry
  split at hentry
  next => cases hentry
  next hne => exact h.get?_eq hentry fun hother => hne (hother.unique hpath)

/-- **The path and the temporary names name what they named at the start**, unless a file is in the
way of the path. -/
theorem Holds.names (h : r.Holds s) (straight : s.moved = [] ∨ r.tree.AvoidsItself r.path) :
    (∀ place, r.tree.Names r.path place → s.tree.Names r.path place) ∧
      ∀ i place, r.tree.Names (r.temporary i) place → s.tree.Names (r.temporary i) place := by
  have shows := h.shows
  rcases hmoved : s.moved with _ | ⟨last, earlier⟩
  · have ways := h.hasWays hmoved
    exact ⟨fun _ hplace => hplace.mono ways, fun _ _ hplace => hplace.mono ways⟩
  -- the file at the place of the path lets through what the cleared place does
  rw [hmoved] at shows
  obtain ⟨place, _, hpath, -⟩ := shows
  have avoids := straight.resolve_left (hmoved ▸ List.cons_ne_nil last earlier)
  have ways := h.hasWays_erase hpath
  refine ⟨fun other hother => ?_, fun i other hother => ?_⟩
  · obtain rfl := hother.unique hpath
    exact (avoids.names_erase hpath).mono ways
  · obtain ⟨suffix, htemporary, noSlash, hyphen⟩ := r.temporary_eq_append i
    rw [htemporary] at hother ⊢
    exact (avoids.names_append_erase noSlash hyphen hpath hother).mono ways

end

/-! ## All orders of turns -/

/-- **The path shows the last file that was moved to it**, whatever the order of the turns.  At every
moment its entry is the one of the start or has the whole content of the call that moved its file
last, and only the places of the temporary names have changed besides.  A call has moved its file if
it has ended well, and when it has ended its temporary name is vacant.  As long as the path is not in
its own way, it names this entry, and no file of a call that has ended is left. -/
theorem run_showsLast {ι : Type} [DecidableEq ι] (r : Race ι) (schedule : List (ι × Move)) :
    let s := r.run schedule
    r.Shows s.tree s.moved ∧
      (∀ i, i ∈ s.moved ↔ s.phase i = .ended (.ok ())) ∧
      (∀ i, (s.phase i).hasEnded = true → s.tree.IsVacant (r.temporary i)) ∧
      (∀ place, (∀ i, ¬r.tree.Names (r.temporary i) place) → ¬r.tree.Names r.path place →
        s.tree.get? place = r.tree.get? place) ∧
      (s.moved = [] ∨ r.tree.AvoidsItself r.path →
        (∀ place, r.tree.Names r.path place → s.tree.Names r.path place) ∧
        ∀ i place, (s.phase i).hasEnded = true → r.tree.Names (r.temporary i) place →
          s.tree.get? place = none) := by
  intro s
  have h : r.Holds s := holds_run schedule
  have vacant : ∀ i, (s.phase i).hasEnded = true → s.tree.IsVacant (r.temporary i) := fun i ended =>
    (h.knows i).isVacant ended
  refine ⟨h.shows, fun i => (h.moved i).trans Phase.succeeded_iff, vacant, h.others,
    fun straight => ?_⟩
  obtain ⟨hpath, htemporary⟩ := h.names straight
  exact ⟨hpath, fun i place ended hplace =>
    isVacant_temporary_iff.1 (vacant i ended) place (htemporary i place hplace)⟩

/-- Two calls on a link, of which the second has a text that cannot be encoded. -/
def onLink : Race Bool where
  tree := linkedTree
  path := "b".toList
  call
    | false => ⟨⟨"b".toList, "os".toList, "utf-8".toList⟩, 7, .zero⟩
    | true => ⟨⟨"b".toList, "é".toList, "ascii".toList⟩, 8, .zero⟩
  temporary
    | false => "b-7-0".toList
    | true => "b-8-0".toList
  onPath := by decide
  named := by decide +kernel
  distinct := by decide
  vacant := by decide +kernel

/-- The first call replaces the link while the second one fails, each between the steps of the
other. -/
theorem run_showsLast_failure :
    let s := onLink.run [(true, .onward 0), (false, .onward 0), (false, .onward 0),
      (true, .onward 0), (false, .onward 0), (true, .onward 0), (false, .onward 0),
      (true, .onward 0), (false, .onward 0), (false, .onward 0), (false, .onward 0)]
    s.moved = [false] ∧ (∀ i, (s.phase i).hasEnded = true) ∧
      s.tree.get? ["b".toList] = some (.file [0x6F, 0x73]) ∧
      s.tree.get? ["b-7-0".toList] = none ∧ s.tree.get? ["b-8-0".toList] = none := by
  intro s
  have moved : s.moved = [false] := by decide +kernel
  have ended : ∀ i, (s.phase i).hasEnded = true := by decide +kernel
  have avoids : onLink.tree.AvoidsItself onLink.path := by decide +kernel
  have named : onLink.tree.Names onLink.path ["b".toList] :=
    ⟨[], _, rfl, by decide +kernel, by decide +kernel⟩
  have named₁ : onLink.tree.Names (onLink.temporary false) ["b-7-0".toList] :=
    ⟨[], _, rfl, by decide +kernel, by decide +kernel⟩
  have named₂ : onLink.tree.Names (onLink.temporary true) ["b-8-0".toList] :=
    ⟨[], _, rfl, by decide +kernel, by decide +kernel⟩
  obtain ⟨shows, -, -, -, straight⟩ := run_showsLast onLink _
  have gone := (straight (Or.inr avoids)).2
  refine ⟨moved, ended, ?_, gone false _ (ended false) named₁, gone true _ (ended true) named₂⟩
  rw [moved] at shows
  obtain ⟨place, bytes, hplace, hcontent, hfile⟩ := shows
  obtain rfl := hplace.unique named
  cases hcontent
  exact hfile

/-- Two calls on a path that goes through its own entry, a link. -/
def throughItself : Race Bool where
  tree := linkedTree
  path := "b/../b".toList
  call
    | false => ⟨⟨"b/../b".toList, "os".toList, "utf-8".toList⟩, 7, .zero⟩
    | true => ⟨⟨"b/../b".toList, "re".toList, "utf-8".toList⟩, 8, .zero⟩
  temporary
    | false => "b/../b-7-0".toList
    | true => "b/../b-8-0".toList
  onPath := by decide
  named := by decide +kernel
  distinct := by decide
  vacant := by decide +kernel

/-- **A file is left behind**, and the path leads nowhere, when the path goes through its own entry:
the first call has moved its file, so the second one finds no way to its own any more. -/
theorem not_run_showsLast_through_itself :
    let s := throughItself.run [(true, .onward 1), (false, .onward 1), (false, .onward 1),
      (false, .onward 1), (false, .onward 1), (false, .onward 1), (false, .onward 1),
      (true, .onward 1), (true, .onward 1), (true, .onward 1), (true, .onward 1),
      (true, .onward 1), (true, .onward 1)]
    (∀ i, (s.phase i).hasEnded = true) ∧ s.moved = [false] ∧
      throughItself.tree.entryAt? throughItself.path = some (.link "d".toList) ∧
      s.tree.entryAt? throughItself.path = none ∧
      throughItself.tree.locate .entry (throughItself.temporary true)
        = .ok ⟨[], some "b-8-0".toList, false⟩ ∧
      throughItself.tree.get? ["b-8-0".toList] = none ∧
      s.tree.get? ["b-8-0".toList] = some (.file [0x72, 0x65]) := by
  decide +kernel

end Race

end ModuleRoster
