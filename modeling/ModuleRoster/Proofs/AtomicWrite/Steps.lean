import ModuleRoster.Proofs.AtomicWrite.AllOrNothing

/-!
# Proofs/AtomicWrite/Steps — a call, step by step

Between the steps of a call others may work on the same tree, and something outside may break the
call off.  `Phase` says how far a call has come, and `Phase.step` does the next step.  A call that is
left alone does in its steps what `AtomicWrite.runWith` does at once, whatever the pieces in which it
writes (`Phase.drive_starting`).
-/

namespace ModuleRoster

/-- **How far a call has come.** -/
inductive Phase
  /-- Nothing is done. -/
  | starting
  /-- The temporary file is made or emptied. -/
  | opened (file : Place)
  /-- Some of the content is written, and these bytes are to come. -/
  | filling (file : Place) (ahead : Bytes)
  /-- The content is written and handed over to the system. -/
  | flushed
  /-- The content is on the disk. -/
  | synced
  /-- The call has failed, and is to look whether the temporary name leads to anything. -/
  | checking (failure : Failure)
  /-- It does, and what is there is to be removed. -/
  | removing (failure : Failure)
  | ended (result : Except Failure Unit)

/-- **What a call may do when it is its turn.** -/
inductive Move
  /-- The next step.  If it writes, it writes one byte and up to `size` more. -/
  | onward (size : Nat)
  /-- It fails, for a reason that lies outside. -/
  | breakOff (failure : Failure)

namespace Phase

open FileTree AtomicWrite

/-- Can a failure still lead to tidying up?  It can until the temporary file is moved. -/
def canBreak : Phase → Bool
  | starting | opened _ | filling _ _ | flushed | synced => true
  | checking _ | removing _ | ended _ => false

/-- Has the call moved its file? -/
def succeeded : Phase → Bool
  | ended (.ok ()) => true
  | _ => false

theorem succeeded_iff {phase : Phase} : phase.succeeded = true ↔ phase = ended (.ok ()) := by
  constructor
  · intro h
    match phase, h with
    | ended (.ok ()), _ => rfl
  · rintro rfl
    rfl

/-- Is nothing left to do? -/
def hasEnded : Phase → Bool
  | ended _ => true
  | _ => false

section

variable (w : AtomicWrite) (temporary : Text)

/-- **The next step of a call**: how far it comes, and the tree after it. -/
def next (size : Nat) : Phase → FileTree → Phase × FileTree
  | starting, tree =>
      match tree.create temporary with
      | .error fault => (checking (.badPath fault temporary), tree)
      | .ok (file, made) => (opened file, made)
  | opened file, tree =>
      match w.content with
      | .error failure => (checking failure, tree)
      | .ok bytes => (filling file bytes, tree)
  | filling _ [], tree => (flushed, tree)
  | filling file (b :: ahead), tree =>
      (filling file (ahead.drop size), tree.append file (b :: ahead.take size))
  | flushed, tree => (synced, tree)
  | synced, tree =>
      match tree.rename temporary w.path with
      | .error fault => (checking (.badRename fault temporary w.path), tree)
      | .ok swapped => (ended (.ok ()), swapped)
  | checking failure, tree =>
      (if tree.leadsTo temporary then removing failure else ended (.error failure), tree)
  | removing failure, tree =>
      match tree.remove temporary with
      | .error fault => (ended (.error (.badPath fault temporary)), tree)
      | .ok cleared => (ended (.error failure), cleared)
  | ended result, tree => (ended result, tree)

/-- **A turn of a call.** -/
def step : Move → Phase → FileTree → Phase × FileTree
  | .onward size, phase, tree => phase.next w temporary size tree
  | .breakOff failure, phase, tree =>
      (if phase.canBreak then checking failure else phase, tree)

/-! ## A call that is left alone -/

/-- The tree with bytes written at the end of a file, if there are any. -/
def fill (tree : FileTree) (file : Place) : Bytes → FileTree
  | [] => tree
  | b :: ahead => tree.append file (b :: ahead)

/-- Go on to the end from a temporary file that is filled. -/
def finishFilled (tree : FileTree) : Except Failure Unit × FileTree :=
  match w.swap temporary tree with
  | (.error failure, tree) => cleanUp temporary failure tree
  | (.ok (), swapped) => (.ok (), swapped)

/-- **Go on to the end from a phase**, at once. -/
def finish : Phase → FileTree → Except Failure Unit × FileTree
  | starting, tree => w.runWith temporary tree
  | opened file, tree =>
      match w.content with
      | .error failure => cleanUp temporary failure tree
      | .ok bytes => finishFilled w temporary (fill tree file bytes)
  | filling file ahead, tree => finishFilled w temporary (fill tree file ahead)
  | flushed, tree => finishFilled w temporary tree
  | synced, tree => finishFilled w temporary tree
  | checking failure, tree => cleanUp temporary failure tree
  | removing failure, tree =>
      match tree.remove temporary with
      | .error fault => (.error (.badPath fault temporary), tree)
      | .ok cleared => (.error failure, cleared)
  | ended result, tree => (result, tree)

/-- Take steps one after the other, with these sizes. -/
def drive : List Nat → Phase × FileTree → Phase × FileTree
  | [], at' => at'
  | size :: sizes, at' => drive sizes (at'.1.next w temporary size at'.2)

/-- How many steps are to come, at most. -/
def stepsAhead : Phase → Nat
  | starting => (w.content.toOption.getD []).length + 7
  | opened _ => (w.content.toOption.getD []).length + 6
  | filling _ ahead => ahead.length + 5
  | flushed => 4
  | synced => 3
  | checking _ => 2
  | removing _ => 1
  | ended _ => 0

variable {tree : FileTree} {file : Place}

/-- Pieces that are written one after the other are written as one. -/
theorem fill_append (size : Nat) (b : UInt8) (ahead : Bytes) :
    fill (tree.append file (b :: ahead.take size)) file (ahead.drop size)
      = fill tree file (b :: ahead) := by
  rcases hdrop : ahead.drop size with _ | ⟨c, rest⟩
  · rw [fill, fill, List.take_of_length_le (List.drop_eq_nil_iff.1 hdrop)]
  · rw [fill, fill, append_append, ← hdrop, List.cons_append, List.take_append_drop]

/-- A file that was just made is filled. -/
theorem fill_insert {name : Text} {folder : Place} (bytes : Bytes) :
    fill (tree.insert (name :: folder) (.file [])) (name :: folder) bytes
      = tree.insert (name :: folder) (.file bytes) := by
  cases bytes with
  | nil => rfl
  | cons b ahead => exact append_insert

/-- **A step does not change how a call will end**, if it is left alone. -/
theorem finish_next (size : Nat) (phase : Phase) (tree : FileTree) :
    finish w temporary (phase.next w temporary size tree).1 (phase.next w temporary size tree).2
      = phase.finish w temporary tree := by
  cases phase with
  | starting =>
      rcases hcreate : tree.create temporary with fault | ⟨file, made⟩
      · simp [next, finish, runWith, openAndWrite, hcreate]
      obtain ⟨folder, name, _, _, _, rfl, rfl⟩ := create_eq_ok_iff.1 hcreate
      rcases hcontent : w.content with failure | bytes
      · simp [next, finish, runWith, openAndWrite, hcreate, hcontent]
      · simp only [next, finish, finishFilled, runWith, openAndWrite, hcreate, hcontent,
          append_insert, fill_insert]
        rfl
  | opened file => rcases hcontent : w.content with failure | bytes <;> simp [next, finish, hcontent]
  | filling file ahead =>
      cases ahead with
      | nil => rfl
      | cons b ahead => rw [next, finish, finish, fill_append]
  | flushed => rfl
  | synced =>
      rcases hrename : tree.rename temporary w.path with fault | swapped <;>
        simp [next, finish, finishFilled, swap, hrename]
  | checking failure =>
      cases hleads : tree.leadsTo temporary with
      | true =>
          rcases hremove : tree.remove temporary with fault | cleared <;>
            simp [next, finish, cleanUp, hleads, hremove]
      | false => simp [next, finish, cleanUp, hleads]
  | removing failure =>
      rcases hremove : tree.remove temporary with fault | cleared <;> simp [next, finish, hremove]
  | ended result => rfl

/-- A step is one of the steps that are to come. -/
theorem stepsAhead_next (size : Nat) (phase : Phase) (tree : FileTree) :
    (phase.next w temporary size tree).1.stepsAhead w ≤ phase.stepsAhead w - 1 := by
  cases phase with
  | starting => rcases hcreate : tree.create temporary <;> simp [next, stepsAhead, hcreate]
  | opened file =>
      rcases hcontent : w.content <;> simp [next, stepsAhead, hcontent, Except.toOption]
  | filling file ahead =>
      cases ahead with
      | nil => simp [next, stepsAhead]
      | cons b ahead => simp [next, stepsAhead]
  | flushed => simp [next, stepsAhead]
  | synced =>
      rcases hrename : tree.rename temporary w.path <;> simp [next, stepsAhead, hrename]
  | checking failure =>
      cases hleads : tree.leadsTo temporary <;> simp [next, stepsAhead, hleads]
  | removing failure =>
      rcases hremove : tree.remove temporary <;> simp [next, stepsAhead, hremove]
  | ended result => simp [next, stepsAhead]

theorem finish_drive (sizes : List Nat) (at' : Phase × FileTree) :
    finish w temporary (drive w temporary sizes at').1 (drive w temporary sizes at').2
      = finish w temporary at'.1 at'.2 := by
  induction sizes generalizing at' with
  | nil => rfl
  | cons size sizes ih => rw [drive, ih, finish_next]

theorem stepsAhead_drive (sizes : List Nat) (at' : Phase × FileTree) :
    (drive w temporary sizes at').1.stepsAhead w ≤ at'.1.stepsAhead w - sizes.length := by
  induction sizes generalizing at' with
  | nil => exact Nat.le_refl _
  | cons size sizes ih =>
      have hstep := stepsAhead_next w temporary size at'.1 at'.2
      have hrest := ih (at'.1.next w temporary size at'.2)
      rw [drive, List.length_cons]
      omega

/-- **A call that is left alone** comes to its end, and has then done what it does at once, whatever
the sizes of the pieces in which it writes. -/
theorem drive_starting (sizes : List Nat) (tree : FileTree)
    (enough : (w.content.toOption.getD []).length + 7 ≤ sizes.length) :
    drive w temporary sizes (starting, tree)
      = (ended (w.runWith temporary tree).1, (w.runWith temporary tree).2) := by
  have hfinish := finish_drive w temporary sizes (starting, tree)
  have hahead := stepsAhead_drive w temporary sizes (starting, tree)
  rcases hdrive : drive w temporary sizes (starting, tree) with ⟨phase, after⟩
  have hnone : phase.stepsAhead w = 0 := by
    rw [hdrive] at hahead
    have hstarting : starting.stepsAhead w ≤ sizes.length := enough
    exact Nat.le_zero.1 (Nat.le_trans hahead (Nat.sub_eq_zero_of_le hstarting ▸ Nat.le_refl _))
  match phase, hnone with
  | ended result, _ =>
      rw [hdrive] at hfinish
      have hrun : (result, after) = w.runWith temporary tree := hfinish
      rw [← hrun]

end

end Phase

end ModuleRoster
