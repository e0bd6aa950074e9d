import AssemblerIndex.Proofs.Assembly.CoreStatements
import AssemblerIndex.Proofs.Assembly.Transitions
import AssemblerIndex.Proofs.Context.SetSymbols
import AssemblerIndex.Proofs.Expression.Elements

/-!
# A statement assigns a run of elements

The operands of an assignment are evaluated one after the other, and each is assigned before the next one is evaluated,
so an operand can read the elements that the ones in front of it have been assigned to.

* `SeesAs` — expressions have the same values in two assemblies, and behind the same assignments they still have;
* `assignedValues` — the values of the operands, each in the state behind the assignments in front of it;
* `replaced_assignOperands` — operands fill a SET symbol with their values;
* `step_of_assigns` — the step that executes an assignment;
* `FilledFrom` — the elements of a SET symbol have been assigned from a subscript on, and nothing else has;
* `elements_assigned` — **an assignment assigns a run of elements and nothing else**.
-/

namespace AssemblerIndex

namespace Context

section

variable {x y : Context}

theorem symbolType_congr (hsymbols : y.symbols = x.symbols) : y.symbolType = x.symbolType := by
  funext name
  unfold symbolType
  rw [hsymbols]

theorem symbolAttribute_congr (hsymbols : y.symbols = x.symbols) (hmacros : y.macros = x.macros) :
    y.symbolAttribute = x.symbolAttribute := by
  funext kind name
  unfold symbolAttribute opcodeType
  rw [symbolType_congr hsymbols, hsymbols, hmacros]

theorem variableAttribute_congr (hsymbols : y.symbols = x.symbols) (hmacros : y.macros = x.macros) :
    y.variableAttribute = x.variableAttribute := by
  funext kind v subscripts
  unfold variableAttribute variableType valueType
  rw [symbolType_congr hsymbols, symbolAttribute_congr hsymbols hmacros]

/-- An assignment has nothing to do with ordinary symbols and macros. -/
theorem symbols_assign? {name : String} {subscript : Option Nat} {v : SetValue}
    (h : x.assign? name subscript v = some y) : y.symbols = x.symbols ∧ y.macros = x.macros := by
  unfold assign? at h
  split at h
  · obtain rfl := Option.some.inj h
    unfold bind mapScope
    split <;> exact ⟨rfl, rfl⟩
  · obtain ⟨s, -, rfl⟩ := Option.map_eq_some_iff.1 h
    exact ⟨rfl, rfl⟩
  · obtain ⟨s, -, rfl⟩ := Option.map_eq_some_iff.1 h
    exact ⟨rfl, rfl⟩
  · cases h

end

end Context

namespace Assembly

open Context (Replaced)

/-! ### Assemblies that answer alike -/

/-- The same variables, ordinary symbols and macros stand for names in both assemblies. -/
structure SeesAs (a b : Assembly) : Prop where
  storage : b.context.storage = a.context.storage
  symbols : b.context.symbols = a.context.symbols
  macros : b.context.macros = a.context.macros
  left : a.Sound
  right : b.Sound

section

variable {a b : Assembly} {name : String} {type : SetType}

/-- Expressions have the same values, even where more names have been met. -/
theorem SeesAs.evaluate (h : SeesAs a b) : b.evaluate = a.evaluate := by
  have henvironment : Expression.environment b.context = Expression.environment a.context := by
    unfold Expression.environment
    rw [Context.visible?_of_storage h.storage, Context.variableAttribute_congr h.symbols h.macros]
    congr 1
    · funext n
      unfold Expression.symbolTerm
      rw [h.symbols]
    · funext kind n
      rw [symbolAttribute_knownName h.right, symbolAttribute_knownName h.left,
        Context.symbolAttribute_congr h.symbols h.macros]
  funext t
  unfold Assembly.evaluate Expression.evaluate
  rw [henvironment]

theorem SeesAs.assignOperands (h : SeesAs a b) (name : String) (type : SetType) (base : Option Nat) (os : List Field) :
    SeesAs (a.assignOperands name type base os) (b.assignOperands name type base os) := by
  induction os generalizing a b base with
  | nil => exact h
  | cons o rest ih =>
    unfold Assembly.assignOperands
    rw [h.evaluate]
    have hassign := Context.assign?_of_storage h.storage name base ((a.evaluate o.text).coerce type)
    cases hx : a.context.assign? name base ((a.evaluate o.text).coerce type) with
    | none =>
      rw [hx, Option.map_none, Option.map_eq_none_iff] at hassign
      rw [hassign]
      exact h
    | some x =>
      rw [hx, Option.map_some, Option.map_eq_some_iff] at hassign
      obtain ⟨y, hy, hstorage⟩ := hassign
      rw [hy]
      obtain ⟨hsymbols, hmacros⟩ := Context.symbols_assign? hx
      obtain ⟨hsymbols', hmacros'⟩ := Context.symbols_assign? hy
      exact ih ⟨hstorage, hsymbols'.trans (h.symbols.trans hsymbols.symm), hmacros'.trans (h.macros.trans hmacros.symm),
        (keeps_assign? hx).sound h.left, (keeps_assign? hy).sound h.right⟩ _

/-! ### Operands that are assigned one after the other -/

/-- The values of the operands, each in the state behind the assignments in front of it, as the type of the instruction
has them. -/
def assignedValues (a : Assembly) (name : String) (type : SetType) (base : Nat) (os : List Field) : List SetValue :=
  os.mapIdx fun k o => ((a.assignOperands name type (some base) (os.take k)).evaluate o.text).coerce type

@[simp] theorem length_assignedValues (a : Assembly) (name : String) (type : SetType) (base : Nat) (os : List Field) :
    (a.assignedValues name type base os).length = os.length :=
  List.length_mapIdx

theorem getElem?_assignedValues {base k : Nat} {os : List Field} (hk : k < os.length) :
    (a.assignedValues name type base os)[k]? =
      some (((a.assignOperands name type (some base) (os.take k)).evaluate os[k].text).coerce type) := by
  rw [assignedValues, List.getElem?_mapIdx, List.getElem?_eq_getElem hk, Option.map_some]

theorem assignedValues_take (k base : Nat) (os : List Field) :
    a.assignedValues name type base (os.take k) = (a.assignedValues name type base os).take k := by
  refine List.ext_getElem (by simp) fun i hi _ => ?_
  rw [length_assignedValues, List.length_take] at hi
  have hk : i < k := by omega
  rw [List.getElem_take, ← Option.some.injEq, ← List.getElem?_eq_getElem, ← List.getElem?_eq_getElem,
    getElem?_assignedValues (by rwa [List.length_take]), getElem?_assignedValues (by omega), List.getElem_take,
    List.take_take, Nat.min_eq_left hk.le]

theorem assignedValues_cons {x : Context} {base : Nat} {o : Field} {rest : List Field}
    (h : a.context.assign? name (some base) ((a.evaluate o.text).coerce type) = some x) :
    a.assignedValues name type base (o :: rest) =
      (a.evaluate o.text).coerce type ::
        ({ a with context := x } : Assembly).assignedValues name type (base + 1) rest := by
  have hbehind (os : List Field) : a.assignOperands name type (some base) (o :: os) =
      ({ a with context := x } : Assembly).assignOperands name type (some (base + 1)) os := by
    rw [Assembly.assignOperands, h]
    rfl
  unfold assignedValues
  rw [List.mapIdx_cons]
  refine congrArg _ (congrArg (List.mapIdx · rest) ?_)
  funext k r
  rw [List.take_succ_cons, hbehind]

theorem SeesAs.assignedValues (h : SeesAs a b) (base : Nat) (os : List Field) :
    b.assignedValues name type base os = a.assignedValues name type base os := by
  unfold Assembly.assignedValues
  refine congrArg (List.mapIdx · os) ?_
  funext k o
  rw [(h.assignOperands name type (some base) (os.take k)).evaluate]

/-- **Operands fill a SET symbol with their values**, and nothing else is changed. -/
theorem replaced_assignOperands {s : SetSymbol} (h : a.context.Binds name s) (type : SetType) (base : Nat)
    (os : List Field) :
    Replaced a.context (a.assignOperands name type (some base) os).context name
      (s.fill base (a.assignedValues name type base os)) := by
  induction os generalizing a base s with
  | nil => exact .refl h
  | cons o rest ih =>
    obtain ⟨x, hx⟩ := h.exists_assign? (some base) ((a.evaluate o.text).coerce type)
    rw [assignedValues_cons hx, SetSymbol.fill, Assembly.assignOperands, hx]
    exact (Context.replaced_assign h hx).trans (ih (a := { a with context := x }) (h.assign hx) (base + 1))

end

/-! ### The statement -/

section

variable {a : Assembly} {p : Activation} {outer : List Activation} {s : Statement} {opcode : String}

theorem instructionKind?_of_assigns (h : assignsSymbol opcode = true) :
    (instructionKind? opcode).isSome = true ∧ declaresSymbols opcode = false := by
  have hkind : ∀ n ∈ ["SETA", "SETB", "SETC"], (instructionKind? n).isSome = true ∧ declaresSymbols n = false := by
    decide +kernel
  exact hkind opcode (by simpa [assignsSymbol] using h)

/-- No macro is loaded for an instruction. -/
theorem context_macro?_of_instruction (h : (instructionKind? (a.context.operation opcode)).isSome = true) :
    ∃ names, (a.macro? opcode).1.context = { a.context with names } := by
  unfold macro?
  split
  · exact ⟨_, rfl⟩
  · dsimp only
    split
    · exact ⟨_, rfl⟩
    · split
      · exact ⟨_, rfl⟩
      · rw [if_pos (show (instructionKind? ((a.meet [opcode]).context.operation opcode)).isSome = true from h)]
        exact ⟨_, rfl⟩

/-- A statement that assigns is only noted before. -/
theorem context_prepare_of_assigns (h : assignsSymbol (a.context.operation s.opcode) = true)
    (hlabel : s.sequenceLabel? = none) : ∃ names, (a.prepare p s).context = { a.context with names } := by
  unfold prepare
  split
  · exact ⟨_, rfl⟩
  · obtain ⟨names, hnames⟩ := context_macro?_of_instruction (instructionKind?_of_assigns h).1
    unfold noteStatement noteLabel
    rw [hlabel]
    dsimp only
    generalize a.macro? s.opcode = r at hnames ⊢
    refine ⟨(names.insertMany ((s.occurrences r.2).map (·.name))).insertMany [s.opcode], ?_⟩
    show (r.1.context.meet ((s.occurrences r.2).map (·.name))).meet [s.opcode] = _
    rw [hnames]
    rfl

theorem storage_moveTo (a : Assembly) (p : Activation) (s : Statement) :
    (a.moveTo p s).context.storage = a.context.storage := by
  unfold moveTo mapContext
  dsimp only
  split
  · exact Context.storage_setMacroStatement ..
  · unfold Context.track Context.setIndices Context.setPosition
    split
    · exact Context.storage_mapSource ..
    · rw [Context.storage_mapSource, Context.storage_mapSource]

theorem sequenceLabel?_of_splitVariable {v : String × Option (List Char)} (h : splitVariable s.labelText = some v) :
    s.sequenceLabel? = none := by
  unfold Statement.sequenceLabel?
  split
  · rename_i cs span hl
    rw [Statement.labelText, hl] at h
    cases h
  · rfl

/-- Where the label of an assignment names a visible variable, its operands are assigned. -/
theorem assign_of_visible {name : String} {subscript : List Char} {v : Variable}
    (hlabel : splitVariable s.labelText = some (name, some subscript)) (hv : a.context.visible? name = some v)
    {base : Nat} (hbase : ((a.meet [name]).evaluate subscript).toWord.toInt = base) (hpositive : 1 ≤ base)
    (p : Activation) (opcode : String) :
    a.assign p s opcode = (a.meet [name]).assignOperands name (setTypeOf opcode) (some base) s.operands := by
  unfold assign
  rw [hlabel]
  dsimp only
  have hseen : (a.meet [name]).context.visible? name = some v := hv
  rw [hseen]
  dsimp only
  rw [Option.map_some, hbase, Int.toNat_natCast, Nat.max_eq_right hpositive]

/-- What there is in front of an assignment that is about to be executed answers alike. -/
theorem seesAs_prepared {file text : String} {library : Library} {settings : Settings} {now : Moment}
    (reached : (fresh file text library settings now).Reaches a) (hc : a.control = p :: outer)
    (hassigns : assignsSymbol (a.context.operation s.opcode) = true) {v : String × Option (List Char)}
    (hlabel : splitVariable s.labelText = some v) (names : List String) :
    SeesAs a (((a.moveTo p s).prepare p s).meet names) ∧
      ((a.moveTo p s).prepare p s).context.operation s.opcode = a.context.operation s.opcode := by
  obtain ⟨_, _, _, _, _, hmove⟩ := shifts_moveTo a p s
  have hoperation : (a.moveTo p s).context.operation s.opcode = a.context.operation s.opcode := by
    rw [hmove]
    rfl
  obtain ⟨ns, hprepare⟩ := context_prepare_of_assigns (p := p) (hoperation ▸ hassigns)
    (sequenceLabel?_of_splitVariable hlabel)
  have hsound := (holds_moveTo_prepare reached.balanced hc s).sound reached.balanced.sound
  have hstorage : ((a.moveTo p s).prepare p s).context.storage = a.context.storage := by
    rw [hprepare, ← storage_moveTo a p s]
    rfl
  refine ⟨⟨hstorage, ?_, ?_, reached.balanced.sound, (spares_meet ..).sound hsound⟩, ?_⟩
  · show ((a.moveTo p s).prepare p s).context.symbols = _
    rw [hprepare, hmove]
  · show ((a.moveTo p s).prepare p s).context.macros = _
    rw [hprepare, hmove]
  · rw [← hoperation, hprepare]
    rfl

/-- The step that executes an assignment assigns the operands and goes on behind the statement. -/
theorem step_of_assigns {file text : String} {library : Library} {settings : Settings} {now : Moment}
    (reached : (fresh file text library settings now).Reaches a) (hc : a.control = p :: outer)
    (hs : p.statement? = some s) (hopening : s.opcode ≠ "MACRO")
    (hclosing : ¬(s.opcode = "MEND" ∧ p.definition?.isSome))
    (hassigns : assignsSymbol (a.context.operation s.opcode) = true) {name : String} {subscript : List Char}
    (hlabel : splitVariable s.labelText = some (name, some subscript)) {v : Variable}
    (hv : a.context.visible? name = some v) {base : Nat} (hbase : (a.evaluate subscript).toWord.toInt = base)
    (hpositive : 1 ≤ base) :
    ∃ x b, SeesAs a x ∧ a.step = .ok b ∧
      b.context =
        (x.assignOperands name (setTypeOf (a.context.operation s.opcode)) (some base) s.operands).context := by
  obtain ⟨hsees, hoperation⟩ := seesAs_prepared reached hc hassigns hlabel [name]
  have hvisible : ((a.moveTo p s).prepare p s).context.visible? name = some v := by
    rw [← hv, ← Context.visible?_of_storage hsees.storage]
    rfl
  have hassign := assign_of_visible hlabel hvisible (by rw [hsees.evaluate, hbase]) hpositive p
    (a.context.operation s.opcode)
  have hprocess : (a.moveTo p s).process p s =
      .ok (((a.moveTo p s).prepare p s).assign p s (a.context.operation s.opcode), .next) := by
    unfold process conditional?
    dsimp only
    rw [hoperation, (instructionKind?_of_assigns hassigns).2, hassigns]
    rfl
  refine ⟨_, (((a.moveTo p s).prepare p s).assign p s (a.context.operation s.opcode)).proceed p outer .next, hsees,
    ?_, ?_⟩
  · rw [step_of_executed hc hs hopening hclosing, hprocess]
    rfl
  · show (((a.moveTo p s).prepare p s).assign p s (a.context.operation s.opcode)).context = _
    rw [hassign]

end

/-! ### What has become of the SET symbol -/

open Expression in
/-- From `a` to `b` the elements of the SET symbol `s` from a subscript on have been assigned the values, which makes it
`r`, and nothing else has been changed. -/
structure FilledFrom (a b : Assembly) (name : String) (s r : SetSymbol) (base : Nat) (values : List SetValue) :
    Prop where
  replaced : Replaced a.context b.context name r
  type : r.type = s.type
  subscripted : r.isScalar = false
  assigned : ∀ k (hk : k < values.length), r.element (base + k) = values[k].coerce s.type
  kept : ∀ i, i < base ∨ base + values.length ≤ i → r.element i = s.element i
  /-- a decimal subscript is read as its element -/
  value : ∀ n ds, IsName n → String.ofList (n.map Char.toUpper) = name → IsSubscript ds →
    b.evaluate ('&' :: (n ++ '(' :: (ds ++ [')']))) = r.element (Nat.ofDigitChars 10 ds 0)
  text : ∀ n ds, IsName n → String.ofList (n.map Char.toUpper) = name → IsSubscript ds →
    substitute b.context (Segment.reference n (some ds)).written = (r.element (Nat.ofDigitChars 10 ds 0)).toText
  /-- the number attribute is the greatest subscript that was assigned, if words have it -/
  number : ∀ n, IsName n → String.ofList (n.map Char.toUpper) = name → values ≠ [] →
    s.maxSubscript < 2147483648 → base + values.length - 1 < 2147483648 →
    ∃ old new : Int32, a.evaluate ('N' :: '\'' :: '&' :: n) = .arithmetic old ∧
      b.evaluate ('N' :: '\'' :: '&' :: n) = .arithmetic new ∧
      new.toInt = max old.toInt (base + values.length - 1 : Nat)

theorem filledFrom_of_replaced {a b : Assembly} {name : String} {s : SetSymbol} {base : Nat} {values : List SetValue}
    (hs : a.context.visible? name = some (.set s)) (subscripted : s.isScalar = false)
    (h : Replaced a.context b.context name (s.fill base values)) :
    FilledFrom a b name s (s.fill base values) base values := by
  have hfilled : (s.fill base values).isScalar = false := by rw [SetSymbol.isScalar_fill, subscripted]
  have hvisible {x : Context} {r : SetSymbol} (hr : x.visible? name = some (.set r)) {n : List Char}
      (hn : String.ofList (n.map Char.toUpper) = name) : Expression.visibleAs x n = some (.set r) := by
    rw [Expression.visibleAs, hn, hr]
  exact {
    replaced := h
    type := s.type_fill base values
    subscripted := hfilled
    assigned := fun k hk => SetSymbol.element_fill subscripted hk
    kept := fun i hi => SetSymbol.element_fill_of_outside subscripted hi
    value := fun n ds hn hname => Expression.evaluate_element hn (hvisible h.visible? hname) hfilled
    text := fun n ds hn hname => Expression.substitute_element hn (hvisible h.visible? hname) hfilled
    number := by
      intro n hn hname hvalues hold hlast
      refine ⟨_, _, Expression.evaluate_number hn (hvisible hs hname) subscripted,
        Expression.evaluate_number hn (hvisible h.visible? hname) hfilled, ?_⟩
      rw [SetSymbol.maxSubscript_fill subscripted base hvalues, Int32.toInt_ofNat_of_lt hold,
        Int32.toInt_ofNat_of_lt (Nat.max_lt.2 ⟨hold, hlast⟩)]
      omega }

/-- **An assignment assigns a run of elements and nothing else.**  For every statement of a run that assigns under the
name of a visible subscripted SET symbol, with a subscript that is at least one: the element of each operand becomes its
value, which is evaluated behind the assignments in front of it and converted to the type of the instruction and then to
that of the SET symbol.  Behind each operand, and so behind the statement, all other elements are as they were, and so
is every other variable of every scope.  The number attribute is the greater one of its old value and of the last
subscript, as long as words have all subscripts that were assigned. -/
theorem elements_assigned {file text : String} {library : Library} {settings : Settings} {now : Moment} {a : Assembly}
    {p : Activation} {outer : List Activation} {s : Statement} {name : String} {subscript : List Char} {v : SetSymbol}
    {base : Nat} (reached : (fresh file text library settings now).Reaches a) (hc : a.control = p :: outer)
    (hs : p.statement? = some s) (hopening : s.opcode ≠ "MACRO")
    (hclosing : ¬(s.opcode = "MEND" ∧ p.definition?.isSome))
    (hassigns : assignsSymbol (a.context.operation s.opcode) = true)
    (hlabel : splitVariable s.labelText = some (name, some subscript))
    (hvisible : a.context.visible? name = some (.set v)) (subscripted : v.isScalar = false)
    (hbase : (a.evaluate subscript).toWord.toInt = base) (hpositive : 1 ≤ base) :
    let type := setTypeOf (a.context.operation s.opcode)
    let before (k : Nat) := a.assignOperands name type (some base) (s.operands.take k)
    ∃ (b : Assembly) (values : List SetValue) (r : Nat → SetSymbol), a.step = .ok b ∧
      values.length = s.operands.length ∧
      (∀ k (hk : k < s.operands.length), values[k]? = some (((before k).evaluate s.operands[k].text).coerce type)) ∧
      (∀ k, FilledFrom a (before k) name v (r k) base (values.take k)) ∧
      FilledFrom a b name v (r s.operands.length) base values := by
  intro type before
  obtain ⟨x, b, hsees, hstep, hb⟩ :=
    step_of_assigns reached hc hs hopening hclosing hassigns hlabel hvisible hbase hpositive
  have hbinds : a.context.Binds name v := reached.reached.binds hvisible
  let values := a.assignedValues name type base s.operands
  have hlength : values.length = s.operands.length := length_assignedValues ..
  refine ⟨b, values, fun k => v.fill base (values.take k), hstep, hlength, fun k hk => ?_, fun k => ?_, ?_⟩
  · exact getElem?_assignedValues hk
  · refine filledFrom_of_replaced hvisible subscripted ?_
    rw [← assignedValues_take]
    exact replaced_assignOperands hbinds ..
  · dsimp only
    rw [← hlength, List.take_length]
    refine filledFrom_of_replaced hvisible subscripted ?_
    have hreplaced := replaced_assignOperands (hbinds.of_storage hsees.storage) type base s.operands
    rw [hsees.assignedValues, ← hb] at hreplaced
    exact hreplaced.of_storage hsees.storage.symm

/-- The statement that is processed next assigns elements of `V`, which is subscripted, with the given subscript. -/
def assignsElements (subscript : List Char) (base operands : Nat) (a : Assembly) : Bool :=
  match a.control with
  | [] => false
  | p :: _ =>
    match p.statement?, a.context.visible? "V" with
    | some s, some (.set v) =>
      s.opcode != "MACRO" && s.opcode != "MEND" && assignsSymbol (a.context.operation s.opcode) &&
        splitVariable s.labelText == some ("V", some subscript) && !v.isScalar &&
        (a.evaluate subscript).toWord.toInt == base && s.operands.length == operands
    | _, _ => false

theorem exists_of_assignsElements {subscript : List Char} {base operands : Nat} {a : Assembly}
    (h : a.assignsElements subscript base operands = true) :
    ∃ p outer s v, a.control = p :: outer ∧ p.statement? = some s ∧ s.opcode ≠ "MACRO" ∧ s.opcode ≠ "MEND" ∧
      assignsSymbol (a.context.operation s.opcode) = true ∧ splitVariable s.labelText = some ("V", some subscript) ∧
      a.context.visible? "V" = some (.set v) ∧ v.isScalar = false ∧ (a.evaluate subscript).toWord.toInt = base ∧
      s.operands.length = operands := by
  unfold assignsElements at h
  split at h
  · cases h
  · rename_i p outer hc
    split at h
    · rename_i s v hs hv
      simp only [Bool.and_eq_true, bne_iff_ne, beq_iff_eq, Bool.not_eq_true'] at h
      obtain ⟨⟨⟨⟨⟨⟨hopening, hclosing⟩, hassigns⟩, hlabel⟩, hscalar⟩, hbase⟩, hlength⟩ := h
      exact ⟨p, outer, s, v, hc, hs, hopening, hclosing, hassigns, hlabel, hv, hscalar, hbase, hlength⟩
    · cases h

theorem isName_V : Expression.IsName ['V'] := ⟨by simp [isNameChar], 'V', rfl, by decide⟩

/-- A macro assigns elements of a global SET symbol, of which open code has assigned the first one. -/
def fillingText : String :=
  " GBLA &V(1)\n&V(1) SETA 7\n MACRO\n M\n GBLA &V(1)\n&V(1+1) SETC '&V(1)','&V(2)5',N'&V\n MEND\n M\n"

theorem elements_assigned_in_macro :
    ∃ (a b : Assembly) (values : List SetValue) (v r : SetSymbol), (fresh "S" fillingText .empty {} default).Reaches a ∧
      a.context.calls.length = 1 ∧ a.step = .ok b ∧ values.length = 3 ∧ FilledFrom a b "V" v r 2 values ∧
      r.element 3 = .arithmetic 75 := by
  have hrun : ((fresh "S" fillingText .empty {} default).run 5).toOption.any fun a =>
      a.assignsElements "1+1".toList 2 3 && a.context.calls.length == 1 &&
        a.step.toOption.any fun b => b.evaluate "&V(3)".toList == .arithmetic 75 := by decide +kernel
  obtain ⟨a, ha, h⟩ := exists_of_any hrun
  simp only [Bool.and_eq_true, beq_iff_eq] at h
  obtain ⟨⟨hfaces, hcalls⟩, hread⟩ := h
  obtain ⟨b, hb, hread⟩ := exists_of_any hread
  obtain ⟨p, outer, s, v, hc, hs, hopening, hclosing, hassigns, hlabel, hv, hscalar, hbase, hlength⟩ :=
    exists_of_assignsElements hfaces
  obtain ⟨c, values, r, hstep, hvalues, -, -, hfilled⟩ := elements_assigned ⟨5, ha⟩ hc hs hopening
    (fun h => hclosing h.1) hassigns hlabel hv hscalar hbase (by decide)
  obtain rfl : b = c := Except.ok.inj (hb.symm.trans hstep)
  have hthird := hfilled.value ['V'] ['3'] isName_V (by decide) (by decide)
  refine ⟨a, b, values, v, _, ⟨5, ha⟩, hcalls, hb, hvalues.trans hlength, hfilled, hthird.symm.trans ?_⟩
  exact beq_iff_eq.1 hread

/-- A statement has assigned an element whose subscript is no word. -/
def overflowingText : String := "&V(2147483647) SETA 1,2\n&V(1) SETA 5\n"

/-- `V` is subscripted, and elements with the given subscripts have been assigned. -/
def hasElements (subscripts : List Nat) (a : Assembly) : Bool :=
  match a.context.visible? "V" with
  | some (.set v) => !v.isScalar && v.elements.keys == subscripts
  | _ => false

theorem evaluate_number_of_hasElements {a : Assembly} {subscripts : List Nat} (h : a.hasElements subscripts = true) :
    a.evaluate ['N', '\'', '&', 'V'] = .arithmetic (Int32.ofNat (subscripts.getLast?.getD 0)) := by
  unfold hasElements at h
  split at h
  · rename_i v hv
    simp only [Bool.and_eq_true, Bool.not_eq_true', beq_iff_eq] at h
    have hvisible : Expression.visibleAs a.context ['V'] = some (.set v) := hv
    have hnumber := Expression.evaluate_number isName_V hvisible h.1
    rwa [SetSymbol.maxSubscript, Std.TreeMap.maxKey?_eq_getLast?_keys, h.2] at hnumber
  · cases h

/-- **The number attribute need not be the greatest subscript**: where an element has been assigned whose subscript is
no word, the number attribute is negative, and so it stays when another element is assigned. -/
theorem number_lost_beyond_words :
    ∃ (a b : Assembly) (p : Activation) (outer : List Activation) (s : Statement) (v : SetSymbol) (old new : Int32),
      (fresh "S" overflowingText .empty {} default).Reaches a ∧ a.control = p :: outer ∧ p.statement? = some s ∧
      s.opcode ≠ "MACRO" ∧ s.opcode ≠ "MEND" ∧ assignsSymbol (a.context.operation s.opcode) = true ∧
      splitVariable s.labelText = some ("V", some ['1']) ∧ a.context.visible? "V" = some (.set v) ∧ v.isScalar = false ∧
      (a.evaluate ['1']).toWord.toInt = (1 : Nat) ∧ s.operands.length = 1 ∧ a.step = .ok b ∧
      a.evaluate ['N', '\'', '&', 'V'] = .arithmetic old ∧ b.evaluate ['N', '\'', '&', 'V'] = .arithmetic new ∧
      new.toInt ≠ max old.toInt (1 + s.operands.length - 1 : Nat) := by
  have hrun : ((fresh "S" overflowingText .empty {} default).run 1).toOption.any fun a =>
      a.assignsElements ['1'] 1 1 && a.hasElements [2147483647, 2147483648] &&
        a.step.toOption.any fun b => b.hasElements [1, 2147483647, 2147483648] := by decide +kernel
  obtain ⟨a, ha, h⟩ := exists_of_any hrun
  simp only [Bool.and_eq_true] at h
  obtain ⟨⟨hfaces, hold⟩, hnew⟩ := h
  obtain ⟨b, hb, hnew⟩ := exists_of_any hnew
  obtain ⟨p, outer, s, v, hc, hs, hopening, hclosing, hassigns, hlabel, hv, hscalar, hbase, hlength⟩ :=
    exists_of_assignsElements hfaces
  refine ⟨a, b, p, outer, s, v, _, _, ⟨1, ha⟩, hc, hs, hopening, hclosing, hassigns, hlabel, hv, hscalar, hbase,
    hlength, hb, evaluate_number_of_hasElements hold, evaluate_number_of_hasElements hnew, ?_⟩
  rw [hlength]
  decide

end Assembly

end AssemblerIndex
