import AssemblerIndex.Proofs.Context.StackOrder

/-!
# Snapshots lead back

A snapshot keeps the open copy members by name only.  It leads back to where it was taken all the same, because a copy
member is never taken away or replaced, and a cursor always stands in the member that is entered under its name.

* `Reached` — the states that operations lead to from the start of an assembly;
* `copyMembers_run` — copy members stay;
* `restore_snapshot` — what restoring a snapshot makes of a state with one level;
* `LedBack` — a state is back at the position of an earlier one, and it is otherwise as it was;
* `snapshots_lead_back` — **a snapshot leads back from every later state with one level**.
-/

namespace AssemblerIndex.Context

/-- The state is one that operations lead to from the start of an assembly. -/
def Reached (x : Context) : Prop := ∃ file settings now ops, x = (start file settings now).run ops

section

variable {x y : Context}

theorem Reached.matched (h : x.Reached) : x.Matched := by
  obtain ⟨file, settings, now, ops, rfl⟩ := h
  exact (Matched.start file settings now).run ops

/-! ### Copy members stay -/

theorem copyMembers_run {n : String} {m : CopyMember} (hm : x.copyMembers.find? n = some m) (ops : List Operation) :
    (x.run ops).copyMembers.find? n = some m :=
  run_induction (P := fun y => y.copyMembers.find? n = some m) hm
    (fun op y hy => (moved_after op y).copyMember hy) ops

/-! ### Restoring -/

/-- Cursors are made from their frames if their members are entered under their names. -/
theorem cursors_frames {cs : List CopyCursor} (h : ∀ c ∈ cs, x.copyMembers.find? c.member.name = some c.member) :
    x.cursors (cs.map fun c => ⟨c.member.name, c.current⟩) = .ok cs := by
  induction cs with
  | nil => rfl
  | cons c cs ih =>
    have hc := h c List.mem_cons_self
    have hcs := ih fun d hd => h d (List.mem_cons_of_mem c hd)
    simp only [List.map_cons, cursors, hc, hcs]
    rfl

/-- Restoring the position of a source puts the source in the place of the current one. -/
theorem restore_snapshot {s : Source} (hs : ∀ c ∈ s.copyStack, x.copyMembers.find? c.member.name = some c.member)
    (hlevels : x.levels = []) : x.restore s.snapshot = .ok (x.mapSource fun _ => s) := by
  have hcursors : x.cursors s.snapshot.copyFrames = .ok s.copyStack.reverse :=
    cursors_frames fun c hc => hs c (List.mem_reverse.1 hc)
  unfold restore
  rw [hlevels, hcursors, List.isEmpty_nil, if_pos rfl]
  simp only [List.reverse_reverse]
  rfl

/-- What was done to the current source does not matter where a snapshot is restored. -/
theorem restore_mapSource {s : Source} (hs : ∀ c ∈ s.copyStack, x.copyMembers.find? c.member.name = some c.member)
    (hlevels : x.levels = []) (f : Source → Source) :
    (x.mapSource f).restore s.snapshot = .ok (x.mapSource fun _ => s) := by
  have hs' : ∀ c ∈ s.copyStack, (x.mapSource f).copyMembers.find? c.member.name = some c.member := by
    intro c hc
    rw [copyMembers_mapSource]
    exact hs c hc
  rw [restore_snapshot hs' (by rw [levels_mapSource, hlevels]), mapSource_mapSource]

theorem levels_eq_nil (h : x.levelStack.length = 1) : x.levels = [] := by
  rw [length_levelStack] at h
  exact List.length_eq_zero_iff.1 (by omega)

/-- A level alone has one source alone. -/
theorem Matched.length_sourceStack_eq_one (hx : x.Matched) (h : x.levelStack.length = 1) :
    x.sourceStack.length = 1 := by
  rw [hx.sources, levelStack, levels_eq_nil h]
  rfl

/-! ### The way back -/

/-- From the state `z` the snapshot of `x` leads to `y`, which is at the position of `x` and otherwise like `z`. -/
structure LedBack (x z y : Context) : Prop where
  succeeds : (Operation.restore x.snapshot).perform z = .ok () y
  snapshot : y.snapshot = x.snapshot
  /-- the cursors stand on the same statements of the same members -/
  cursors : y.source.copyStack = x.source.copyStack
  /-- each cursor is one on the member that is entered under its name -/
  fresh : ∀ c ∈ y.source.copyStack, z.copyMembers.find? c.member.name = some c.member
  /-- there is one source, and only it is changed -/
  single : y.sourceStack = [y.source]
  frame : y = z.mapSource fun _ => y.source
  /-- moving a cursor moves no other one -/
  apart : ∀ level index other, other ≠ level →
    (y.setCursor level index).source.copyStack.reverse[other]? = y.source.copyStack.reverse[other]?
  /-- and the snapshot leads back from there as well -/
  again : ∀ level index, (Operation.restore x.snapshot).perform (y.setCursor level index) = .ok () y

theorem getElem?_setCursor (y : Context) {level index other : Nat} (h : other ≠ level) :
    (y.setCursor level index).source.copyStack.reverse[other]? = y.source.copyStack.reverse[other]? := by
  unfold setCursor
  rw [source_mapSource, List.reverse_reverse, List.getElem?_modify_ne _ _ (Ne.symm h)]

theorem perform_restore {p : Snapshot} (h : x.restore p = .ok y) : (Operation.restore p).perform x = .ok () y := by
  rw [perform_eq]
  show x.outcome (x.restore p) = _
  rw [h]
  rfl

theorem ledBack {z : Context} (hz : z.Matched) (hsingle : z.levelStack.length = 1)
    (hmembers : ∀ c ∈ x.source.copyStack, z.copyMembers.find? c.member.name = some c.member) :
    LedBack x z (z.mapSource fun _ => x.source) := by
  have hsource := source_mapSource z fun _ => x.source
  have hlevels := levels_eq_nil hsingle
  refine ⟨perform_restore (restore_snapshot hmembers hlevels), ?_, ?_, ?_, ?_, ?_, ?_, ?_⟩
  · rw [snapshot, hsource]
    rfl
  · rw [hsource]
  · rw [hsource]
    exact hmembers
  · have hdrop : z.sourceStack.dropLast = [] := by
      apply List.length_eq_zero_iff.1
      rw [List.length_dropLast, hz.length_sourceStack_eq_one hsingle]
    rw [sourceStack_mapSource, hdrop, hsource]
    rfl
  · rw [hsource]
  · intro level index other hother
    exact getElem?_setCursor _ hother
  · intro level index
    apply perform_restore
    unfold setCursor
    rw [mapSource_mapSource]
    exact restore_mapSource hmembers hlevels _

end

/-- **A snapshot leads back from every later state with one level**, and it changes nothing where it was taken. -/
theorem snapshots_lead_back {x : Context} (h : x.Reached) :
    (∀ ops, (x.run ops).levelStack.length = 1 → ∃ y, LedBack x (x.run ops) y) ∧
    (x.levelStack.length = 1 → (Operation.restore x.snapshot).perform x = .ok () x) := by
  have hx := h.matched
  constructor
  · intro ops hsingle
    exact ⟨_, ledBack (hx.run ops) hsingle fun c hc => copyMembers_run (hx.source c hc) ops⟩
  · intro hsingle
    have hback := (ledBack hx hsingle hx.source).succeeds
    have hsame : (x.mapSource fun _ => x.source) = x.mapSource fun s => s := mapSource_congr x rfl
    rwa [hsame, mapSource_id] at hback

/-- Operations in front of a snapshot that stands in a copy member, and some that lead away. -/
theorem snapshot_leads_back_into_member :
    let m : CopyMember := { name := "REGS", body := #[], location := ⟨"REGS.copy", 0, 0⟩ }
    let x := (start "P" {} default).run
      [.addCopyMember m, .setPosition ⟨5, 9⟩, .enterCopy "REGS", .setCursor 0 1]
    let ops : List Operation := [.leaveCopy, .setPosition ⟨40, 9⟩, .pushLevel .lookahead, .popLevel]
    x.snapshot.copyFrames = [⟨"REGS", 1⟩] ∧ (x.run ops).snapshot.copyFrames = [] ∧
      (∃ y, LedBack x (x.run ops) y) ∧ (Operation.restore x.snapshot).perform x = .ok () x := by
  refine ⟨rfl, rfl, ?_, ?_⟩
  · exact (snapshots_lead_back ⟨"P", {}, default, _, rfl⟩).1 _ rfl
  · exact (snapshots_lead_back ⟨"P", {}, default, _, rfl⟩).2 rfl

end AssemblerIndex.Context
