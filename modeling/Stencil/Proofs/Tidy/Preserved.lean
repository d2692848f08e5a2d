/-
The code of templates is tidy.

If the helpers of a compiler write tidy code for arguments that are well-formed and for sections
whose code is tidy (`Compiler.WritesTidily`), then by induction on the template all code of the
compiler is tidy.  The helpers of the control flow do (`tidy_ifBlock`, `tidy_switchBlock`,
`tidy_eachBlock`, `tidy_json`), so no text of a source can end a literal or leave a bracket open
in its code (`ControlFlow.process_tidy`).
-/
import Mathlib
import Stencil.Proofs.ControlFlow
import Stencil.Proofs.Readback
import Stencil.Proofs.Tidy

namespace Stencil

open Code

/-! ### Names, values and functions -/

theorem Code.isPlain_of_continuesName {c : Char} (h : continuesName c = true) :
    isPlain c = true := by
  have hcontrol : ∀ n < 0x20, continuesName (Char.ofNat n) = false := by decide
  have hlow : 0x20 ≤ c.toNat := by
    by_contra hlt
    have hname := hcontrol c.toNat (Nat.lt_of_not_le hlt)
    rw [Char.ofNat_toNat, h] at hname
    cases hname
  have hspecial : c ∉ ['"', '\\', '(', ')', '{', '}'] := by
    simp only [List.mem_cons, List.not_mem_nil, or_false, not_or]
    exact ⟨ne_of_class h rfl, ne_of_class h rfl, ne_of_class h rfl, ne_of_class h rfl,
      ne_of_class h rfl, ne_of_class h rfl⟩
  simp [isPlain, hlow, hspecial]

variable {context : String}

theorem Code.tidy_of_continuesName {code : String} (h : code.toList.all continuesName = true) :
    Tidy code :=
  tidy_of_isPlain (List.all_eq_true.mpr fun c hc =>
    isPlain_of_continuesName (List.all_eq_true.mp h c hc))

theorem Code.tidy_field (hcontext : isName context.toList = true) {name : String}
    (hname : isName name.toList = true) : Tidy (field context name) :=
  ((tidy_of_continuesName (all_continuesName hcontext)).append
    (tidy_of_isPlain (by decide))).append (tidy_of_continuesName (all_continuesName hname))

theorem Code.tidy_function {parameter body : String} (hparameter : Tidy parameter)
    (hbody : Tidy body) : Tidy (function parameter body) := by
  have hcode : function parameter body =
      "function" ++ ("(" ++ parameter ++ ")") ++
        (r"{" ++ ("return " ++ body ++ ";") ++ r"}") := by
    simp [function, ← String.toList_inj]
  rw [hcode]
  have hname : Tidy "function" := tidy_of_isPlain (by decide)
  have hreturn : Tidy ("return " ++ body ++ ";") :=
    ((tidy_of_isPlain (by decide)).append hbody).append (tidy_of_isPlain (by decide))
  exact (hname.append hparameter.parentheses).append hreturn.braces

theorem Code.tidy_concat : ∀ {codes : List String}, (∀ code ∈ codes, Tidy code) →
    Tidy (concat codes)
  | [], _ => tidy_jsonString ""
  | [code], h => by
    have hcode : concat [code] = code := by
      simp [concat]
    exact hcode ▸ h code (List.mem_singleton_self code)
  | code :: next :: rest, h => by
    obtain ⟨hcode, hrest⟩ := List.forall_mem_cons.mp h
    have hconcat : concat (code :: next :: rest) = code ++ "+" ++ concat (next :: rest) := by
      simp [concat]
    rw [hconcat]
    exact (hcode.append (tidy_of_isPlain (by decide))).append (tidy_concat hrest)

/-- The code of a value is tidy. -/
theorem Value.Legible.tidy (hcontext : isName context.toList = true) : ∀ {v : Value},
    v.Legible → Tidy (v.code context)
  | .variable _, h => tidy_field hcontext h
  | .string text, _ => tidy_jsonString text
  | .number digits, h =>
    tidy_of_continuesName (List.all_eq_true.mpr fun c hc =>
      continuesName_of_isDigit (isDigit_of_mem h hc))
  | .comparison op left right, ⟨hleft, hright⟩ => by
    have hcode : (Value.comparison op left right).code context =
        "(" ++ (left.code context ++ op.symbol ++ right.code context) ++ ")" := by
      simp [Value.code, ← String.toList_inj]
    have hsymbol : Tidy op.symbol := tidy_of_isPlain (by cases op <;> decide)
    rw [hcode]
    exact (((hleft.tidy hcontext).append hsymbol).append (hright.tidy hcontext)).parentheses

theorem Value.WellFormed.tidy (hcontext : isName context.toList = true) {v : Value}
    (h : v.WellFormed) : Tidy (v.code context) :=
  h.legible.tidy hcontext

/-! ### Templates -/

/-- Whether the code of a section, if it has one, is tidy. -/
structure CompiledSection.Tidy (s : CompiledSection) : Prop where
  arguments : s.arguments.WellFormed
  code : ∀ code, s.code = .ok code → Code.Tidy code

/-- Whether the sections of a block are tidy. -/
structure CompiledBlock.Tidy (block : CompiledBlock) : Prop where
  arguments : block.arguments.WellFormed
  main : block.main.Tidy
  sections : ∀ s ∈ block.sections, s.Tidy

namespace Compiler

/-- Whether helpers write tidy code, if they are given such. -/
structure WritesTidily (compiler : Compiler) : Prop where
  context : isName compiler.context.toList = true
  call : ∀ {call : Call} {code : String}, call.arguments.WellFormed →
    compiler.codeOfCall call = .ok code → Tidy code
  block : ∀ {block : CompiledBlock} {code : String}, block.Tidy →
    compiler.codeOfBlock block = .ok code → Tidy code

variable {compiler : Compiler} {keyword : String → String → Bool}

mutual

theorem tidy_codeOfItem (h : compiler.WritesTidily) : ∀ {item : Item} {code : String},
    item.WellFormed keyword → compiler.codeOfItem item = .ok code → Tidy code
  | .text content, _, _, hcode => by
    obtain rfl := Except.ok.inj hcode
    exact tidy_jsonString content
  | .expression _, _, hwell, hcode => by
    obtain rfl := Except.ok.inj hcode
    exact Value.WellFormed.tidy h.context hwell
  | .call _, _, ⟨_, hargs, _⟩, hcode => h.call hargs hcode
  | .block _, _, hwell, hcode => h.block (tidy_compileBlock h hwell) hcode

theorem tidy_compileBlock (h : compiler.WritesTidily) : ∀ {block : Block},
    block.WellFormed keyword → (compiler.compileBlock block).Tidy
  | ⟨_, _, _, _⟩, ⟨_, hargs, ⟨_, hempty, hmain⟩, hsections⟩ =>
    ⟨hargs, tidy_compileSection h (hempty ▸ ⟨nofun, nofun⟩) hmain,
      tidy_compileSections h hsections⟩

theorem tidy_compileSection (h : compiler.WritesTidily) : ∀ {n : String} {s : Section},
    s.arguments.WellFormed → s.BodyWellFormed keyword n → (compiler.compileSection s).Tidy
  | _, ⟨_, _, _⟩, hargs, ⟨hitems, _⟩ => by
    refine ⟨hargs, fun code hcode => ?_⟩
    obtain ⟨codes, hcodes, rfl⟩ := map_eq_ok.mp hcode
    exact tidy_concat (tidy_fragments h hitems hcodes)

theorem tidy_fragments (h : compiler.WritesTidily) : ∀ {b : Option String} {items : List Item}
    {codes : List String}, Item.ListWellFormed keyword b items →
    compiler.fragments items = .ok codes → ∀ code ∈ codes, Tidy code
  | _, [], _, _, hcodes => by
    obtain rfl := Except.ok.inj hcodes
    exact nofun
  | _, _ :: _, _, ⟨⟨hitem, _⟩, hitems⟩, hcodes => by
    obtain ⟨code, hcode, hcodes⟩ := bind_eq_ok.mp hcodes
    obtain ⟨codes, hrest, hcodes⟩ := bind_eq_ok.mp hcodes
    obtain rfl := Except.ok.inj hcodes
    exact List.forall_mem_cons.mpr ⟨tidy_codeOfItem h hitem hcode, tidy_fragments h hitems hrest⟩

theorem tidy_compileSections (h : compiler.WritesTidily) : ∀ {n : String}
    {sections : List Section}, Section.ListWellFormed keyword n sections →
    ∀ s ∈ compiler.compileSections sections, s.Tidy
  | _, [], _ => nofun
  | _, _ :: _, ⟨⟨⟨_, _, _, _, hargs⟩, hwell⟩, hwells⟩ =>
    List.forall_mem_cons.mpr ⟨tidy_compileSection h hargs hwell, tidy_compileSections h hwells⟩

end

/-- The code of a template is tidy. -/
theorem tidy_compile (h : compiler.WritesTidily) (hconstant : compiler.constant = Code.constant)
    {dialect : Dialect} {template : Template} {code : String} (hwell : template.WellFormed dialect)
    (hcode : compiler.compile template = .ok code) : Tidy code := by
  rw [compile_eq_ok_iff, hconstant] at hcode
  rcases hcode with ⟨text, -, rfl⟩ | ⟨-, body, hbody, rfl⟩
  · exact tidy_function (tidy_of_isPlain rfl) (tidy_jsonString text)
  · obtain ⟨codes, hcodes, rfl⟩ := map_eq_ok.mp hbody
    exact tidy_function (tidy_of_continuesName (all_continuesName h.context))
      (tidy_concat (tidy_fragments h hwell.1 hcodes))

end Compiler

/-! ### Control flow -/

namespace ControlFlow

variable {block : CompiledBlock} {code : String}

theorem tidy_choice {condition yes no : String} (hcondition : Tidy condition) (hyes : Tidy yes)
    (hno : Tidy no) : Tidy ("(" ++ condition ++ "?" ++ yes ++ ":" ++ no ++ ")") := by
  have hcode : "(" ++ condition ++ "?" ++ yes ++ ":" ++ no ++ ")" =
      "(" ++ (condition ++ "?" ++ (yes ++ ":" ++ no)) ++ ")" := by
    simp [← String.toList_inj]
  have harms : Tidy (yes ++ ":" ++ no) :=
    (hyes.append (tidy_of_isPlain (by decide))).append hno
  rw [hcode]
  exact ((hcondition.append (tidy_of_isPlain (by decide))).append harms).parentheses

theorem tidy_ifBlock (hcontext : isName context.toList = true) (hblock : block.Tidy)
    (h : ifBlock context block = .ok code) : Tidy code := by
  obtain ⟨condition, body, otherwise, hcondition, hbody, helse, hnone, rfl⟩ :=
    ifBlock_eq_ok_iff.mp h
  have hno : Tidy otherwise := by
    cases hsection : block.section? "else" with
    | none => exact hnone hsection ▸ tidy_jsonString ""
    | some s =>
      exact (hblock.sections s (List.mem_of_find?_eq_some hsection)).code _ (helse s hsection)
  exact tidy_choice ((hblock.arguments.get? hcondition).tidy hcontext)
    (hblock.main.code body hbody) hno

/-- Whether labels, bodies and the fallback are tidy. -/
structure Arms.Tidy (arms : Arms) : Prop where
  cases : ∀ case ∈ arms.cases, Code.Tidy case.1 ∧ Code.Tidy case.2
  fallback : Code.Tidy arms.fallback

theorem Arms.Tidy.add (hcontext : isName context.toList = true) {arms arms' : Arms}
    (harms : arms.Tidy) {s : CompiledSection} (hs : s.Tidy)
    (h : arms.add context s = .ok arms') : arms'.Tidy := by
  obtain ⟨body, hbody, ⟨-, label, hlabel, rfl⟩ | ⟨-, rfl⟩⟩ := Arms.add_eq_ok_iff.mp h
  · have hcase : Code.Tidy (label.code context) ∧ Code.Tidy body :=
      ⟨(hs.arguments.get? hlabel).tidy hcontext, hs.code body hbody⟩
    exact ⟨List.forall_mem_append.mpr ⟨harms.cases, List.forall_mem_singleton.mpr hcase⟩,
      harms.fallback⟩
  · exact ⟨harms.cases, hs.code body hbody⟩

theorem Arms.Tidy.foldlM (hcontext : isName context.toList = true) {sections : List CompiledSection}
    (hsections : ∀ s ∈ sections, s.Tidy) {arms arms' : Arms} (harms : arms.Tidy)
    (h : sections.foldlM (Arms.add context) arms = .ok arms') : arms'.Tidy := by
  induction sections generalizing arms with
  | nil =>
    obtain rfl := Except.ok.inj h
    exact harms
  | cons s sections ih =>
    obtain ⟨hs, hsections⟩ := List.forall_mem_cons.mp hsections
    rw [List.foldlM_cons] at h
    obtain ⟨next, hnext, h⟩ := bind_eq_ok.mp h
    exact ih hsections (harms.add hcontext hs hnext) h

theorem Arms.Tidy.tidy_code {subject : String} (hsubject : Code.Tidy subject) {arms : Arms}
    (harms : arms.Tidy) : Code.Tidy (arms.code subject) := by
  obtain ⟨cases, fallback⟩ := arms
  obtain ⟨hcases, hfallback⟩ := harms
  induction cases with
  | nil => exact hfallback
  | cons case cases ih =>
    obtain ⟨⟨hlabel, hbody⟩, hcases⟩ := List.forall_mem_cons.mp hcases
    have hequal : Code.Tidy (subject ++ "==" ++ case.1) :=
      (hsubject.append (tidy_of_isPlain (by decide))).append hlabel
    have hchoice := tidy_choice hequal hbody (ih hcases hfallback)
    simpa [Arms.code, String.append_assoc] using hchoice

theorem tidy_switchBlock (hcontext : isName context.toList = true) (hblock : block.Tidy)
    (h : switchBlock context block = .ok code) : Tidy code := by
  obtain ⟨subject, arms, hsubject, harms, rfl⟩ := switchBlock_eq_ok_iff.mp h
  have hempty : Arms.Tidy {} := ⟨nofun, tidy_jsonString ""⟩
  exact (hempty.foldlM hcontext hblock.sections harms).tidy_code
    ((hblock.arguments.get? hsubject).tidy hcontext)

theorem tidy_eachBlock (hcontext : isName context.toList = true) (hblock : block.Tidy)
    (h : eachBlock context block = .ok code) : Tidy code := by
  obtain ⟨list, body, hlist, hbody, rfl⟩ := eachBlock_eq_ok_iff.mp h
  have hcode : field context list ++ ".map(" ++ function "" body ++ ").join(\"\")" =
      field context list ++ ".map" ++ ("(" ++ function "" body ++ ")") ++ ".join" ++
        ("(" ++ Text.jsonString "" ++ ")") := by
    simp [← String.toList_inj]
  have hfunction : Tidy (function "" body) :=
    tidy_function (tidy_of_isPlain rfl) (hblock.main.code body hbody)
  have hfield : Tidy (field context list) := tidy_field hcontext (hblock.arguments.get? hlist)
  have hmap : Tidy (field context list ++ ".map" ++ ("(" ++ function "" body ++ ")")) :=
    (hfield.append (tidy_of_isPlain (by decide))).append hfunction.parentheses
  rw [hcode]
  exact (hmap.append (tidy_of_isPlain (by decide))).append (tidy_jsonString "").parentheses

theorem tidy_json {value : Value} (hcontext : isName context.toList = true)
    (hvalue : value.WellFormed) : Tidy ("JSON.stringify(" ++ value.code context ++ ")") := by
  have hcode : "JSON.stringify(" ++ value.code context ++ ")" =
      "JSON.stringify" ++ ("(" ++ value.code context ++ ")") := by
    simp [← String.toList_inj]
  have hname : Tidy "JSON.stringify" := tidy_of_isPlain (by decide)
  rw [hcode]
  exact hname.append (hvalue.tidy hcontext).parentheses

variable {engine : Engine}

/-- The helpers of the control flow write tidy code. -/
theorem Alone.writesTidily (halone : Alone engine)
    (hcontext : isName engine.compiler.context.toList = true) : engine.compiler.WritesTidily where
  context := hcontext
  call hargs h := by
    obtain ⟨-, value, hvalue, rfl⟩ := (codeOfCall_eq_ok_iff halone).mp h
    exact tidy_json hcontext (hargs.1 value (hvalue ▸ List.mem_singleton_self value))
  block hblock h := by
    rcases (codeOfBlock_eq_ok_iff halone).mp h with ⟨-, h⟩ | ⟨-, h⟩ | ⟨-, h⟩
    · exact tidy_ifBlock hcontext hblock h
    · exact tidy_switchBlock hcontext hblock h
    · exact tidy_eachBlock hcontext hblock h

/-- In the code of a source all literals and brackets are closed, and no character is a control
character.  The literal of a text ends at its last character and leaves no bracket open. -/
theorem process_tidy (halone : Alone engine)
    (hcontext : isName engine.compiler.context.toList = true)
    (hconstant : engine.compiler.constant = Code.constant) {source : String}
    (h : engine.process source = .ok code) :
    Scan.run {} code.toList = some {} ∧ (∀ c ∈ code.toList, 0x20 ≤ c.toNat) ∧
    ∀ (text : String) (closers : List Char),
      Scan.run ⟨closers, .outside⟩ (Text.jsonString text).toList = some ⟨closers, .outside⟩ ∧
      ∀ front, front ≠ [] → front <+: (Text.jsonString text).toList →
        front ≠ (Text.jsonString text).toList → ∃ place, place ≠ .outside ∧
          Scan.run ⟨closers, .outside⟩ front = some ⟨closers, place⟩ := by
  obtain ⟨template, hparse, hcompile⟩ := bind_eq_ok.mp h
  have htidy := Compiler.tidy_compile (halone.writesTidily hcontext) hconstant
    (Engine.wellFormed_of_parse hparse) (mapError_eq_ok.mp hcompile)
  refine ⟨htidy.run_eq [], htidy.printable, fun text closers => ?_⟩
  exact ⟨(tidy_jsonString text).run_eq closers, fun front hne hfront hproper =>
    place_ne_outside hne hfront hproper closers⟩

/-- Quotes, brackets and a backslash in a text, and a bracket in a quoted text. -/
theorem process_tidy_hostile :
    ((Engine.ofContext "c").configure settings).process
        r#"{{#if a}}")(\{{else}}{{json "}"}}{{/if}}"# =
      .ok r#"function(c){return (c.a?"\")(\\":JSON.stringify("}"));}"# ∧
    Scan.run {} r#"function(c){return (c.a?"\")(\\":JSON.stringify("}"));}"#.toList = some {} := by
  have hprocess : ((Engine.ofContext "c").configure settings).process
      r#"{{#if a}}")(\{{else}}{{json "}"}}{{/if}}"# =
      .ok r#"function(c){return (c.a?"\")(\\":JSON.stringify("}"));}"# := by
    cbv
  exact ⟨hprocess, (process_tidy (alone_configure "c") (by decide) rfl hprocess).1⟩

end ControlFlow

end Stencil
