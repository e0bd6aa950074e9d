import AssemblerIndex.Proofs.Assembly.SymbolTables
import AssemblerIndex.Proofs.Symbol.Extents

/-!
# Storage in a run

Machine instructions and the operands of `DC` and `DS` lay out storage under the location counter in use; nothing else
moves a counter.

* `OrdinaryStatement.demands` — the storage that a statement needs;
* `extents`, `storage` — the storage that the next step lays out, and that a number of steps do;
* `Lays` — from one table to another storage was laid out under the counter in use;
* `storage_layout` — **storage is laid out in order under each counter**, as long as all of it fits;
* `storage_isExact_iff` — **no counter overflows if and only if all of it fits**; `storage_overflows` is an example of
  storage that does not.
-/

namespace AssemblerIndex

/-! ### What statements need -/

/-- The storage that an operand needs. -/
def DataMeasure.demand (m : DataMeasure) : Demand := ⟨m.alignment, m.room, m.isBoundary⟩

/-- The storage that the operands of a `DC` or `DS` need. -/
def dataDemands (os : List Field) : List Demand := os.filterMap fun o => (DataOperand.measure? o.text).map (·.demand)

/-- The storage that a machine instruction needs. -/
def machineDemand (opcode : String) : Demand := ⟨2, Assembly.machineLength opcode, by decide⟩

/-- The storage that an ordinary statement needs. -/
def OrdinaryStatement.demands (r : OrdinaryStatement) : List Demand :=
  if r.opcode = "DC" ∨ r.opcode = "DS" then dataDemands r.statement.operands
  else if instructionKind? r.opcode = some .machine ∨ instructionKind? r.opcode = some .mnemonic then
    [machineDemand r.opcode]
  else []

/-- Instructions to the assembler need no storage of their own. -/
theorem demands_of_assembler {file : String} {s : Statement} {opcode : String}
    (h : opcode ∈ ["CSECT", "START", "DSECT", "RSECT", "COM", "LOCTR", "EQU", "OPSYN"]) :
    OrdinaryStatement.demands ⟨file, s, opcode⟩ = [] := by
  have hkinds : ∀ n ∈ ["CSECT", "START", "DSECT", "RSECT", "COM", "LOCTR", "EQU", "OPSYN"],
      ¬(n = "DC" ∨ n = "DS") ∧ ¬(instructionKind? n = some .machine ∨ instructionKind? n = some .mnemonic) := by
    decide +kernel
  unfold OrdinaryStatement.demands
  rw [if_neg (hkinds opcode h).1, if_neg (hkinds opcode h).2]

/-! ### Storage under the counter in use -/

namespace SymbolTable

variable {t u v : SymbolTable}

/-- The storage for demands under the counter in use. -/
def extents (t : SymbolTable) (ds : List Demand) : List Extent :=
  extentsFrom t.counterInUse (t.offset t.counterInUse) ds

/-- The sections, with their counters, and what is in use are the same. -/
structure SameLayout (t u : SymbolTable) : Prop where
  sections : u.sections = t.sections
  current : u.current = t.current

theorem SameLayout.coherent (h : SameLayout t u) (ht : t.Coherent) : u.Coherent := ht.of_sections h.sections h.current

theorem SameLayout.counter? (h : SameLayout t u) : u.counter? = t.counter? := by
  funext k
  rw [SymbolTable.counter?, h.sections, SymbolTable.counter?]

theorem SameLayout.offset (h : SameLayout t u) : u.offset = t.offset := (Preserves.of_sections h.sections).offset

theorem SameLayout.counterInUse (h : SameLayout t u) : u.counterInUse = t.counterInUse := by
  rw [SymbolTable.counterInUse, currentSection?, h.sections, h.current]
  rfl

/-- From `t` to `u` storage for the demands was laid out under the counter in use, and other counters were started at
most. -/
structure Lays (t u : SymbolTable) (ds : List Demand) : Prop where
  offset : u.offset = offsetsAfter t.offset (t.extents ds)
  started : ∀ k, (t.counter? k).isSome → (u.counter? k).isSome

theorem Preserves.lays (h : t.Preserves u) : t.Lays u [] :=
  ⟨h.offset, fun k hk => by
    obtain ⟨c, hc⟩ := Option.isSome_iff_exists.1 hk
    rw [h.started hc]
    rfl⟩

theorem Lays.cons {d : Demand} {ds : List Demand} (h : t.Lays u [d]) (huse : u.counterInUse = t.counterInUse)
    (h' : u.Lays v ds) : t.Lays v (d :: ds) := by
  refine ⟨?_, fun k hk => h'.started k (h.started k hk)⟩
  have hoffset : u.offset = Function.update t.offset t.counterInUse
      (Extent.stop { d with counter := t.counterInUse, before := t.offset t.counterInUse }) := h.offset
  rw [h'.offset, extents, huse, hoffset, Function.update_self]
  rfl

/-- Moving the counter up and on, with a symbol defined in between, lays out storage. -/
theorem lays_store (h : t.Coherent) (d : Demand) (hu : SameLayout (t.align (Int32.ofNat d.alignment)) u) :
    (u.reserve (Int32.ofNat d.room)).Coherent ∧ (u.reserve (Int32.ofNat d.room)).counterInUse = t.counterInUse ∧
      t.Lays (u.reserve (Int32.ofNat d.room)) [d] := by
  have hcoherent : u.Coherent := hu.coherent (h.move _)
  have huse : u.counterInUse = t.counterInUse := hu.counterInUse.trans (counterInUse_move ..)
  have hoffset : u.offset = _ := hu.offset.trans (offset_move h _)
  refine ⟨hcoherent.move _, (counterInUse_move ..).trans huse, ?_, fun k hk => ?_⟩
  · rw [reserve_eq_move, offset_move hcoherent, huse, hoffset, Function.update_self, Function.update_idem]
    rfl
  · refine isSome_counter?_move u _ ?_
    rw [hu.counter?]
    exact isSome_counter?_move t _ hk

/-- A counter that is moved up stands where the storage begins. -/
theorem place_align (h : t.Coherent) (d : Demand) : (t.align (Int32.ofNat d.alignment)).place =
    .relocatable t.counterInUse.sectionIndex
      (Extent.start { d with counter := t.counterInUse, before := t.offset t.counterInUse }) := by
  obtain ⟨i, hi⟩ := exists_current_move t (alignOffset (Int32.ofNat d.alignment))
  rw [align_eq_move, place_eq (h.move _) hi, counterInUse_move, offset_move h, Function.update_self]
  rfl

end SymbolTable

namespace Assembly

/-! ### Statements -/

section Statements

open SymbolTable (SameLayout Lays)

variable {a b : Assembly} {file name : String} {s : Statement}

theorem sameLayout_defineLabel (a : Assembly) (file : String) (s : Statement) (value : SymbolValue)
    (attributes : SymbolAttributes) :
    SameLayout a.context.symbols (a.defineLabel file s value attributes).context.symbols := by
  unfold defineLabel
  split
  · exact ⟨rfl, rfl⟩
  · exact ⟨SymbolTable.sections_define .., SymbolTable.current_define ..⟩

/-- A label that is new gets its value. -/
theorem value?_defineLabel (hlabel : s.ordinaryLabel? = some name) (hfree : a.context.symbols.find? name = none)
    (file : String) (value : SymbolValue) (attributes : SymbolAttributes) :
    (a.defineLabel file s value attributes).context.symbols.value? name = some value := by
  unfold defineLabel
  rw [hlabel]
  exact SymbolTable.value?_define_of_none (ne_empty_of_ordinaryLabel? hlabel) hfree

theorem dataDemands_cons (o : Field) (os : List Field) :
    dataDemands (o :: os) = ((DataOperand.measure? o.text).map (·.demand)).toList ++ dataDemands os := by
  rw [dataDemands, List.filterMap_cons]
  cases (DataOperand.measure? o.text).map (·.demand) <;> rfl

/-- **The operands of a `DC` or `DS` lay out storage for what they define.** -/
theorem lays_defineData {labelled : Bool} {os : List Field} (ha : a.context.symbols.Coherent)
    (h : a.defineData file s labelled os = .ok b) : Lays a.context.symbols b.context.symbols (dataDemands os) := by
  induction os generalizing a labelled with
  | nil => exact Except.ok.inj h ▸ (SymbolTable.Preserves.refl _).lays
  | cons o rest ih =>
    rw [dataDemands_cons]
    unfold defineData at h
    split at h
    · rename_i hparse
      rw [DataOperand.measure?_of_parse_error hparse]
      exact ih ha h
    · cases h
    · rename_i d hparse
      obtain ⟨m, hm, hholds⟩ := DataOperand.measure?_of_parse hparse
      dsimp only at h
      rw [hholds.size_eq, hholds.alignment] at h
      rw [hm]
      generalize hb : (if labelled then _ else _ : Assembly) = a' at h
      have hsame : SameLayout (a.context.symbols.align (Int32.ofNat m.alignment)) a'.context.symbols := by
        rw [← hb]
        split
        · exact ⟨rfl, rfl⟩
        · exact sameLayout_defineLabel (a.mapSymbols (·.align (Int32.ofNat m.alignment))) ..
      obtain ⟨hcoherent, huse, hstore⟩ := SymbolTable.lays_store ha m.demand hsame
      exact hstore.cons huse (ih hcoherent h)

/-- The operands behind the one that defines the label define no symbol. -/
theorem symbols_defineData_of_labelled {os : List Field} (h : a.defineData file s true os = .ok b) :
    b.context.symbols.symbols = a.context.symbols.symbols := by
  induction os generalizing a with
  | nil => exact Except.ok.inj h ▸ rfl
  | cons o rest ih =>
    unfold defineData at h
    split at h
    · exact ih h
    · cases h
    · rename_i d _
      rw [ih h]
      exact (SymbolTable.symbols_reserve ..).trans (SymbolTable.symbols_align ..)

/-- **The label of a `DC` or `DS` stands where the storage of the statement begins.** -/
theorem value?_defineData {os : List Field} (ha : a.context.symbols.Coherent) (hlabel : s.ordinaryLabel? = some name)
    (hfree : a.context.symbols.find? name = none) (h : a.defineData file s false os = .ok b) {e : Extent}
    (he : (a.context.symbols.extents (dataDemands os)).head? = some e) :
    b.context.symbols.value? name = some (.relocatable e.counter.sectionIndex e.start) := by
  induction os generalizing a with
  | nil => cases he
  | cons o rest ih =>
    rw [dataDemands_cons] at he
    unfold defineData at h
    split at h
    · rename_i hparse
      rw [DataOperand.measure?_of_parse_error hparse] at he
      exact ih ha hfree h he
    · cases h
    · rename_i d hparse
      obtain ⟨m, hm, hholds⟩ := DataOperand.measure?_of_parse hparse
      rw [hm] at he
      obtain rfl := Option.some.inj he
      dsimp only at h
      rw [hholds.size_eq, hholds.alignment, if_neg nofun] at h
      rw [SymbolTable.value?_of_symbols ((symbols_defineData_of_labelled h).trans (SymbolTable.symbols_reserve ..))]
      refine (value?_defineLabel hlabel ?_ ..).trans (congrArg some (SymbolTable.place_align ha m.demand))
      rw [SymbolTable.find?, ← hfree]
      exact congrArg _ (SymbolTable.symbols_align ..)

theorem preserves_equate (a : Assembly) (file : String) (s : Statement) :
    a.context.symbols.Preserves (a.equate file s).context.symbols := by
  unfold equate
  split
  · exact .refl _
  · rename_i first _ _
    refine .trans ?_ (.of_sections (sameLayout_defineLabel ..).sections)
    rcases SymbolTable.sumTerms_fst a.context.symbols 0 none (signedTerms first.text) with h | h
    · exact .of_sections (congrArg (·.sections) h)
    · exact h ▸ SymbolTable.preserves_ensureSection _

/-- An ordinary statement needs no storage and moves no counter, or it defines data, or it is a machine instruction. -/
theorem demands_cases {opcode : String} (h : a.ordinary file s opcode = .ok b) :
    (OrdinaryStatement.demands ⟨file, s, opcode⟩ = [] ∧ a.context.symbols.Preserves b.context.symbols) ∨
      (OrdinaryStatement.demands ⟨file, s, opcode⟩ = dataDemands s.operands ∧
        a.defineData file s false s.operands = .ok b) ∨
      OrdinaryStatement.demands ⟨file, s, opcode⟩ = [machineDemand opcode] ∧ a.machine file s opcode = b := by
  cases effect_of_ordinary h with
  | startSection _ names =>
    exact .inl ⟨demands_of_assembler (List.mem_append_left ["LOCTR", "EQU", "OPSYN"] names),
      SymbolTable.preserves_setSection ..⟩
  | startCounter named =>
    refine .inl ⟨demands_of_assembler (by simp [named]), ?_⟩
    unfold startCounter
    split
    · exact .refl _
    · exact SymbolTable.preserves_setCounter ..
  | equate named => exact .inl ⟨demands_of_assembler (by simp [named]), preserves_equate ..⟩
  | defineData names h => exact .inr (.inl ⟨if_pos names, h⟩)
  | defineSynonym named =>
    exact .inl ⟨demands_of_assembler (by simp [named]), .of_sections (congrArg (·.sections) (symbols_defineSynonym ..))⟩
  | machine noData kind => exact .inr (.inr ⟨(if_neg noData).trans (if_pos kind), rfl⟩)
  | nothing noData kind => exact .inl ⟨(if_neg noData).trans (if_neg kind), .refl _⟩

/-- **An ordinary statement lays out the storage that it needs.** -/
theorem lays_ordinary {r : OrdinaryStatement} (ha : a.context.symbols.Coherent)
    (h : a.ordinary r.file r.statement r.opcode = .ok b) : Lays a.context.symbols b.context.symbols r.demands := by
  rcases demands_cases h with ⟨hnone, hb⟩ | ⟨hdata, hb⟩ | ⟨hmachine, rfl⟩
  · exact hnone ▸ hb.lays
  · exact hdata ▸ lays_defineData ha hb
  · exact hmachine ▸ (SymbolTable.lays_store ha (machineDemand r.opcode)
      (sameLayout_defineLabel (a.mapSymbols (·.align 2)) ..)).2.2

/-- **A label stands where the storage of its statement begins.** -/
theorem value?_ordinary {r : OrdinaryStatement} (ha : a.context.symbols.Coherent)
    (h : a.ordinary r.file r.statement r.opcode = .ok b) (hlabel : r.statement.ordinaryLabel? = some name)
    (hfree : a.context.symbols.find? name = none) {e : Extent}
    (he : (a.context.symbols.extents r.demands).head? = some e) :
    b.context.symbols.value? name = some (.relocatable e.counter.sectionIndex e.start) := by
  rcases demands_cases h with ⟨hnone, -⟩ | ⟨hdata, hb⟩ | ⟨hmachine, rfl⟩
  · rw [hnone] at he
    cases he
  · rw [hdata] at he
    exact value?_defineData ha hlabel hfree hb he
  · rw [hmachine] at he
    obtain rfl := Option.some.inj he
    refine (SymbolTable.value?_of_symbols (SymbolTable.symbols_reserve ..) name).trans ?_
    refine (value?_defineLabel hlabel ?_ ..).trans
      (congrArg some (SymbolTable.place_align ha (machineDemand r.opcode)))
    rw [SymbolTable.find?, ← hfree]
    exact congrArg _ (SymbolTable.symbols_align ..)

end Statements

/-! ### Steps -/

/-- The storage that the next step lays out. -/
def extents (a : Assembly) : List Extent :=
  match a.ordinaryStatement? with
  | none => []
  | some r => a.context.symbols.extents r.demands

/-- The storage that a number of steps lay out, in order. -/
def storage : Nat → Assembly → List Extent
  | 0, _ => []
  | n + 1, a => a.extents ++ match a.step with
    | .ok b => storage n b
    | .error _ => []

section Steps

variable {a b : Assembly}

theorem counter_of_mem_extents {e : Extent} (h : e ∈ a.extents) : e.counter = a.context.symbols.counterInUse := by
  unfold extents at h
  split at h
  · cases h
  · exact counter_of_mem_extentsFrom h

theorem follows_extents (a : Assembly) : Follows a.context.symbols.offset a.extents := by
  unfold extents
  split
  · trivial
  · exact follows_extentsFrom ..

/-- **A step moves the counter in use as the storage that it lays out tells**, and leaves the others alone. -/
theorem offset_step (ha : a.context.symbols.Coherent) (h : a.step = .ok b) :
    b.context.symbols.offset = offsetsAfter a.context.symbols.offset a.extents ∧
      ∀ k, (a.context.symbols.counter? k).isSome → (b.context.symbols.counter? k).isSome := by
  unfold extents
  rcases ordinary_of_step h with ⟨hnone, hb⟩ | ⟨r, x, y, hr, hx, ho, hb⟩
  · rw [hnone, hb]
    exact ⟨rfl, fun _ => id⟩
  · rw [hr, hb, ← hx]
    have hlays := lays_ordinary (hx ▸ ha) ho
    exact ⟨hlays.offset, hlays.started⟩

/-- **A label stands where the storage of its statement begins.** -/
theorem value?_step (ha : a.context.symbols.Coherent) (h : a.step = .ok b) {r : OrdinaryStatement}
    (hr : a.ordinaryStatement? = some r) {name : String} (hlabel : r.statement.ordinaryLabel? = some name)
    (hfree : a.context.symbols.find? name = none) {e : Extent} (he : a.extents.head? = some e) :
    b.context.symbols.value? name = some (.relocatable e.counter.sectionIndex e.start) := by
  unfold extents at he
  rw [hr] at he
  rcases ordinary_of_step h with ⟨hnone, -⟩ | ⟨r', x, y, hr', hx, ho, hb⟩
  · cases hr.symm.trans hnone
  · obtain rfl := Option.some.inj (hr.symm.trans hr')
    rw [← hx] at ha hfree he
    rw [hb]
    exact value?_ordinary ha ho hlabel hfree he

end Steps

/-! ### Runs -/

section Runs

variable {a b c : Assembly}

theorem Operates.coherent (h : a.Operates b) (ha : a.context.symbols.Coherent) : b.context.symbols.Coherent := by
  obtain ⟨ops, hops⟩ := h
  exact hops ▸ ha.perform ops

/-- The storage of a run is that of its beginning followed by that of the rest. -/
theorem storage_add {m : Nat} (h : a.run m = .ok b) (n : Nat) : a.storage (m + n) = a.storage m ++ b.storage n := by
  induction m generalizing a with
  | zero =>
    obtain rfl := Except.ok.inj h
    rw [Nat.zero_add]
    rfl
  | succ m ih =>
    obtain ⟨x, hx, h⟩ := exists_step_of_run h
    rw [Nat.succ_add, storage, storage, hx]
    dsimp only
    rw [ih h, List.append_assoc]

theorem storage_one (h : a.step = .ok b) : a.storage 1 = a.extents := by
  rw [storage, h]
  exact List.append_nil _

/-- **A run moves the counters as the storage that it lays out tells.** -/
theorem follows_storage {n : Nat} (ha : a.context.symbols.Coherent) (h : a.run n = .ok b) :
    Follows a.context.symbols.offset (a.storage n) ∧
      b.context.symbols.offset = offsetsAfter a.context.symbols.offset (a.storage n) := by
  induction n generalizing a with
  | zero => exact ⟨trivial, Except.ok.inj h ▸ rfl⟩
  | succ n ih =>
    obtain ⟨x, hx, h⟩ := exists_step_of_run h
    obtain ⟨hoffset, -⟩ := offset_step ha hx
    obtain ⟨hfollows, hb⟩ := ih ((operates_step hx).coherent ha) h
    rw [storage, hx]
    dsimp only
    rw [hoffset] at hfollows hb
    exact ⟨(follows_extents a).append hfollows, hb.trans (offsetsAfter_append ..).symm⟩

variable {file text : String} {library : Library} {settings : Settings} {now : Moment} {n : Nat}

theorem follows_storage_fresh (h : (fresh file text library settings now).run n = .ok a) :
    Follows (fun _ => 0) ((fresh file text library settings now).storage n) ∧
      a.context.symbols.offset = offsetsAfter (fun _ => 0) ((fresh file text library settings now).storage n) :=
  follows_storage (Reaches.refl _).coherent h

/-- **Storage is laid out in order.**  In a run in which all storage fits, the extents under each location counter are
disjoint and in order of assembly, each of them begins at the first multiple of its alignment behind the one before it,
and the counter stands at the end of the last one.  Each step adds its extents, all under the counter that is in use
then; it leaves all other counters alone, and a label that is new lies where the first extent of its statement begins,
then and ever after. -/
theorem storage_layout (h : (fresh file text library settings now).run n = .ok a)
    (hfits : ∀ e ∈ (fresh file text library settings now).storage n, e.Fits) :
    let a₀ := fresh file text library settings now
    (∀ k, LaidOut 0 (extentsOf k (a₀.storage n)) ∧
      a.context.symbols.offset k = ((extentsOf k (a₀.storage n)).getLast?.map (·.stop)).getD 0) ∧
    ∀ m b c, a₀.run m = .ok b → b.step = .ok c → c.Reaches a →
      a₀.storage (m + 1) = a₀.storage m ++ b.extents ∧
      (∀ e ∈ b.extents, e.counter = b.context.symbols.counterInUse) ∧
      (∀ k o, (∀ e ∈ b.extents, e.counter ≠ k) → (b.context.symbols.counter? k).map (·.offset) = some o →
        (c.context.symbols.counter? k).map (·.offset) = some o) ∧
      ∀ r name e, b.ordinaryStatement? = some r → r.statement.ordinaryLabel? = some name →
        b.context.symbols.find? name = none → b.extents.head? = some e →
        a.context.symbols.value? name = some (.relocatable e.counter.sectionIndex e.start) := by
  intro a₀
  obtain ⟨hfollows, hoffset⟩ := follows_storage_fresh h
  constructor
  · intro k
    exact ⟨hfollows.laidOut (fun _ => Int.le_refl 0) hfits k, by rw [hoffset, offsetsAfter_eq]⟩
  · intro m b c hb hc hreaches
    have hcoherent : b.context.symbols.Coherent := Reaches.coherent ⟨m, hb⟩
    obtain ⟨hstep, hstarted⟩ := offset_step hcoherent hc
    refine ⟨?_, fun e => counter_of_mem_extents, fun k o hk ho => ?_, fun r name e hr hlabel hfree he => ?_⟩
    · rw [storage_add hb, storage_one hc]
    · -- the counter is still there, and its offset is the same
      obtain ⟨d, hd, rfl⟩ := Option.map_eq_some_iff.1 ho
      obtain ⟨d', hd'⟩ := Option.isSome_iff_exists.1 (hstarted k (by rw [hd]; rfl))
      have hsame := (congrFun hstep k).trans (offsetsAfter_of_ne hk)
      rw [SymbolTable.offset, SymbolTable.offset, hd, hd'] at hsame
      rw [hd']
      exact congrArg some hsame
    · obtain ⟨ops, hops⟩ := hreaches.operates
      rw [hops]
      exact SymbolTable.value?_perform (value?_step hcoherent hc hr hlabel hfree he) ops

/-- A section with two location counters, each of which is resumed. -/
def resumedCounterText : String :=
  "A CSECT\nX DS C,F\nY LR 1,2\nL LOCTR\n DS H\nA LOCTR\nZ DC D'0'\nL LOCTR\nV DS F\n"

theorem exists_run_resumedCounterText :
    ∃ a, (fresh "S" resumedCounterText (.ofMembers []) {} default).run 9 = .ok a := by
  have hrun : ((fresh "S" resumedCounterText (.ofMembers []) {} default).run 9).toOption.any fun _ => true := by
    decide +kernel
  obtain ⟨a, ha, -⟩ := exists_of_any hrun
  exact ⟨a, ha⟩

theorem fits_storage_resumedCounterText :
    ∀ e ∈ (fresh "S" resumedCounterText (.ofMembers []) {} default).storage 9, e.Fits := by
  have hall : ((fresh "S" resumedCounterText (.ofMembers []) {} default).storage 9).all fun e => decide e.Fits := by
    decide +kernel
  exact fun e he => of_decide_eq_true (List.all_eq_true.1 hall e he)

/-- The storage under two location counters is in order under each of them. -/
theorem storage_layout_of_resumed_counters :
    let a₀ := fresh "S" resumedCounterText (.ofMembers []) {} default
    ∃ a, a₀.run 9 = .ok a ∧ (extentsOf ⟨0, 0⟩ (a₀.storage 9)).map (·.start) = [0, 4, 8, 16] ∧
      (extentsOf ⟨0, 1⟩ (a₀.storage 9)).map (·.start) = [0, 4] ∧
      ∀ k, LaidOut 0 (extentsOf k (a₀.storage 9)) := by
  intro a₀
  obtain ⟨a, ha⟩ := exists_run_resumedCounterText
  have hlaid (k : CounterRef) : LaidOut 0 (extentsOf k (a₀.storage 9)) :=
    ((storage_layout ha fits_storage_resumedCounterText).1 k).1
  exact ⟨a, ha, by decide +kernel, by decide +kernel, hlaid⟩

/-- **Nothing overflows if and only if all storage fits.**  An operand is reserved exactly if it takes less than 2³¹
bytes.  All operands of a run are reserved exactly, and no location counter becomes smaller or negative, just if all
storage ends below 2³¹; and then no counter is negative at the end or stood farther on before. -/
theorem storage_isExact_iff (h : (fresh file text library settings now).run n = .ok a) :
    let a₀ := fresh file text library settings now
    (∀ s d, DataOperand.parse s = .ok d →
      ∃ m, DataOperand.measure? s = some m ∧ d.Holds m ∧ (d.size.toInt = m.room ↔ m.room < 2 ^ 31)) ∧
    ((∀ e ∈ a₀.storage n, e.IsExact) ↔ ∀ e ∈ a₀.storage n, e.Fits) ∧
    ((∀ e ∈ a₀.storage n, e.Fits) → ∀ m b k, m ≤ n → a₀.run m = .ok b →
      0 ≤ b.context.symbols.offset k ∧ b.context.symbols.offset k ≤ a.context.symbols.offset k) := by
  intro a₀
  have hzero : ∀ k : CounterRef, 0 ≤ ((fun _ => 0 : CounterRef → Int32) k).toInt := fun _ => Int.le_refl 0
  refine ⟨fun s d hd => ?_, (follows_storage_fresh h).1.isExact_iff_fits hzero, fun hfits m b k hm hb => ?_⟩
  · obtain ⟨m, hm, hholds⟩ := DataOperand.measure?_of_parse hd
    exact ⟨m, hm, hholds, DataOperand.toInt_size_eq_iff hholds⟩
  · obtain ⟨l, rfl⟩ := Nat.exists_eq_add_of_le hm
    rw [storage_add hb] at hfits
    obtain ⟨hfollows, hoffset⟩ := follows_storage_fresh hb
    have hstood (k : CounterRef) : 0 ≤ (b.context.symbols.offset k).toInt := by
      have hnonneg := (hfollows.nonneg hzero fun e he => hfits e (List.mem_append_left _ he)).2 k
      rwa [hoffset]
    have hrest : b.run l = .ok a := by
      rw [run_add, hb] at h
      exact h
    obtain ⟨hfollows', hoffset'⟩ := follows_storage (Reaches.coherent ⟨m, hb⟩) hrest
    have hup := (hfollows'.nonneg hstood fun e he => hfits e (List.mem_append_right _ he)).2 k
    exact ⟨Int32.le_iff_toInt_le.2 (hstood k), Int32.le_iff_toInt_le.2 (by rwa [hoffset'])⟩

theorem storage_isExact_of_resumed_counters :
    let a₀ := fresh "S" resumedCounterText (.ofMembers []) {} default
    ∀ e ∈ a₀.storage 9, e.IsExact := by
  intro a₀
  obtain ⟨a, ha⟩ := exists_run_resumedCounterText
  exact (storage_isExact_iff ha).2.1.2 fits_storage_resumedCounterText

/-- Operands of 2³² and of 2³¹ bytes. -/
def overflowText : String := "A DS 65536CL65536\nB DS 2CL1073741824\nC DS C\n"

/-- **Storage that does not fit overflows**: 2³² bytes are reserved as none at all, and 2³¹ bytes make the location
counter negative. -/
theorem storage_overflows :
    let a₀ := fresh "S" overflowText (.ofMembers []) {} default
    ((a₀.storage 3).map (·.room) = [4294967296, 2147483648, 1]) ∧
      ((a₀.storage 3).map (·.before) = [0, 0, -2147483648]) ∧
      ∃ a, a₀.run 3 = .ok a ∧ a.context.symbols.value? "B" = some (.relocatable 0 0) ∧
        a.context.symbols.value? "C" = some (.relocatable 0 (-2147483648)) := by
  intro a₀
  have hrun : (a₀.run 3).toOption.any fun a => decide (a.context.symbols.value? "B" = some (.relocatable 0 0) ∧
      a.context.symbols.value? "C" = some (.relocatable 0 (-2147483648))) := by decide +kernel
  obtain ⟨a, ha, hvalues⟩ := exists_of_any hrun
  exact ⟨by decide +kernel, by decide +kernel, a, ha, of_decide_eq_true hvalues⟩

end Runs

end Assembly

end AssemblerIndex
