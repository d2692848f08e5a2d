/-
Quoted texts.

Inside of a tag a quote starts a quoted text.  Up to the next quote of its kind that no backslash
precedes, every character stands for itself, and a backslash with the character behind it for one
character (`QuotedBody`).

* `Scanner.next_closed`, `Scanner.next_unclosed` — a quoted text is one token, with or without its
  closing quote;
* `Template.ofSource_quotedTag` — so a text can be printed by putting it in quotes, whatever it
  holds;
* `Engine.process_quoted` — and the code that is written for it is its literal.
-/
import Stencil.Proofs.Folding

namespace Stencil

open Text (byteLength)

/-! ### Tokens -/

/-- Only three letters stand for another character behind a backslash. -/
theorem unescape_of_not_mem {c : Char} (h : c ∉ ['n', 'r', 't']) : unescape c = c := by
  rw [unescape.eq_def]
  split
  case h_4 => rfl
  all_goals exact absurd (by decide) h

namespace Scanner

variable {s : Scanner} {q : Char}

/-- A quote, a body and the same quote are one token.  What follows is read next. -/
theorem next_closed (hmode : s.mode = .tag) (hq : q = '"' ∨ q = '\'')
    {body content rest : List Char} (h : QuotedBody q body content)
    (hbody : s.body = q :: (body ++ q :: rest)) :
    s.next = (⟨.string (String.ofList content), s.start⟩,
      ⟨rest, s.start + byteLength (q :: (body ++ [q])), .tag⟩) := by
  have hspelled : (Lexeme.string (String.ofList content)).Spelled (q :: (body ++ [q])) rest := by
    refine ⟨q, _, hq, rfl, body, ?_, .inl rfl⟩
    rwa [String.toList_ofList]
  have hchars : s.body = q :: (body ++ [q]) ++ rest := by
    rw [hbody, List.cons_append, List.append_assoc, List.singleton_append]
  have hinside : (Lexeme.string (String.ofList content)).modeOf = s.mode := hmode.symm
  have hnext := next_eq hchars hinside hspelled
  rwa [hmode] at hnext

/-- Without a closing quote all up to the end of the source is one token. -/
theorem next_unclosed (hmode : s.mode = .tag) (hq : q = '"' ∨ q = '\'') {cs : List Char}
    (hbody : s.body = q :: cs)
    (h : ¬∃ body content rest, QuotedBody q body content ∧ cs = body ++ q :: rest) :
    ∃ body content, QuotedBody q body content ∧ (cs = body ∨ cs = body ++ ['\\']) ∧
      s.next = (⟨.string (String.ofList content), s.start⟩,
        ⟨[], s.start + byteLength (q :: cs), .tag⟩) := by
  have hinput := readQuoted_input q cs
  obtain ⟨body, hcontent, hend⟩ := quotedEnd_readQuoted q cs
  generalize readQuoted q cs = r at *
  obtain ⟨content, spelling, rest⟩ := r
  obtain rfl : spelling ++ rest = cs := hinput
  rcases hend with rfl | ⟨rfl, hend⟩
  · refine absurd ⟨body, content, rest, hcontent, ?_⟩ h
    rw [List.append_assoc, List.singleton_append]
  · rw [List.append_nil] at hbody ⊢
    have hspelled : (Lexeme.string (String.ofList content)).Spelled (q :: spelling) [] := by
      refine ⟨q, _, hq, rfl, body, ?_, .inr ⟨rfl, hend⟩⟩
      rwa [String.toList_ofList]
    have hchars : s.body = q :: spelling ++ [] := by
      rw [hbody, List.append_nil]
    have hinside : (Lexeme.string (String.ofList content)).modeOf = s.mode := hmode.symm
    have hnext := next_eq hchars hinside hspelled
    rw [hmode] at hnext
    exact ⟨body, content, hcontent, hend, hnext⟩

end Scanner

/-! ### Templates and code -/

/-- A text between two quotes. -/
def Text.inQuotes (q : Char) (text : String) : String :=
  String.ofList (q :: (text.toList.flatMap (protect q) ++ [q]))

/-- A quoted text is spelled by putting it in quotes, whatever follows. -/
theorem Lexeme.spelled_inQuotes {q : Char} (hq : q = '"' ∨ q = '\'') (text : String)
    (rest : List Char) : (Lexeme.string text).Spelled (Text.inQuotes q text).toList rest := by
  have hunescape : unescape q = q := by
    rcases hq with rfl | rfl <;> rfl
  exact ⟨q, _, hq, String.toList_ofList, _, quotedBody_protect hunescape _, .inl rfl⟩

/-- The source that prints a text by putting it in quotes. -/
def Text.quotedTag (q : Char) (text : String) : String :=
  r"{{" ++ Text.inQuotes q text ++ r"}}"

/-- Such a source has three tokens. -/
theorem Scanner.tokens_quotedTag {q : Char} (hq : q = '"' ∨ q = '\'') (text : String) :
    (ofSource (Text.quotedTag q text)).tokens = [⟨.tagOpen, 0⟩, ⟨.string text, 2⟩,
      ⟨.tagClose, 2 + byteLength (Text.inQuotes q text).toList⟩] := by
  have hnogap : ∀ c ∈ ([] : List Char), isBlank c = true := nofun
  have hclose : Cut .tag (2 + byteLength (Text.inQuotes q text).toList) ['}', '}']
      [⟨[], ['}', '}'], ⟨.tagClose, 2 + byteLength (Text.inQuotes q text).toList⟩⟩] [] := by
    have hspelled : Lexeme.tagClose.Spelled ['}', '}'] [] := rfl
    exact .cons hnogap (fun _ => rfl) rfl hspelled (.nil nofun fun _ => rfl)
  have hquoted : Cut .tag 2 ((Text.inQuotes q text).toList ++ ['}', '}'])
      [⟨[], (Text.inQuotes q text).toList, ⟨.string text, 2⟩⟩,
        ⟨[], ['}', '}'], ⟨.tagClose, 2 + byteLength (Text.inQuotes q text).toList⟩⟩] [] := by
    exact .cons hnogap (fun _ => rfl) rfl (Lexeme.spelled_inQuotes hq text _) hclose
  have hwhole : Cut .text 0 (openBraces ++ ((Text.inQuotes q text).toList ++ ['}', '}']))
      [⟨[], openBraces, ⟨.tagOpen, 0⟩⟩, ⟨[], (Text.inQuotes q text).toList, ⟨.string text, 2⟩⟩,
        ⟨[], ['}', '}'], ⟨.tagClose, 2 + byteLength (Text.inQuotes q text).toList⟩⟩] [] := by
    have hspelled : Lexeme.tagOpen.Spelled openBraces
        ((Text.inQuotes q text).toList ++ ['}', '}']) := by
      rw [Text.inQuotes, String.toList_ofList]
      -- A quote is neither `#` nor `/`.
      rcases hq with rfl | rfl <;> exact ⟨rfl, by simp, by simp⟩
    exact .cons hnogap (fun _ => rfl) rfl hspelled hquoted
  have hchars : (Text.quotedTag q text).toList =
      openBraces ++ ((Text.inQuotes q text).toList ++ ['}', '}']) := by
    rw [Text.quotedTag, String.toList_append, String.toList_append, List.append_assoc]
    rfl
  rw [ofSource, hchars, hwhole.tokens_eq]
  rfl

/-- A source that prints a text in quotes is that text in every dialect. -/
theorem Template.ofSource_quotedTag (dialect : Dialect) {q : Char} (hq : q = '"' ∨ q = '\'')
    (text : String) :
    ofSource dialect (Text.quotedTag q text) = .ok ⟨[.expression (.string text)]⟩ := by
  refine Grammar.ofSource_eq_ok_iff_ofTokens.mpr ?_
  rw [Scanner.tokens_quotedTag hq]
  rfl

namespace Engine

/-- Its code is a function that returns the literal of the text. -/
theorem process_quotedTag (engine : Engine) {q : Char} (hq : q = '"' ∨ q = '\'') (text : String) :
    engine.process (Text.quotedTag q text) =
      .ok (Code.function engine.compiler.context (Text.jsonString text)) := by
  have hparse := parse_eq_ok_iff.mpr (Template.ofSource_quotedTag engine.dialect hq text)
  rw [process_of_parse hparse, engine.compile_of_constant?_eq_none rfl]
  rfl

/-- Inside of a tag a quote, a body and the same quote are a token that holds what the body means,
and reading goes on behind it.  Where there is no such body and quote, all up to the end of the
source is a token, and a lone backslash at the end means nothing.  So every text can be printed by
putting it in quotes, with a backslash in front of each quote of that kind and each backslash. -/
theorem process_quoted {q : Char} (hq : q = '"' ∨ q = '\'') :
    (unescape 'n' = '\n' ∧ unescape 'r' = '\x0d' ∧ unescape 't' = '\t' ∧
      ∀ c, c ∉ ['n', 'r', 't'] → unescape c = c) ∧
    (∀ (s : Scanner) (cs : List Char), s.mode = .tag → s.body = q :: cs →
      (∀ body content rest, QuotedBody q body content → cs = body ++ q :: rest →
        s.next = (⟨.string (String.ofList content), s.start⟩,
          ⟨rest, s.start + byteLength (q :: (body ++ [q])), .tag⟩)) ∧
      ((¬∃ body content rest, QuotedBody q body content ∧ cs = body ++ q :: rest) →
        ∃ body content, QuotedBody q body content ∧ (cs = body ∨ cs = body ++ ['\\']) ∧
          s.next = (⟨.string (String.ofList content), s.start⟩,
            ⟨[], s.start + byteLength (q :: cs), .tag⟩))) ∧
    ∀ text : String,
      (∀ dialect, Template.ofSource dialect (Text.quotedTag q text) =
        .ok ⟨[.expression (.string text)]⟩) ∧
      ∀ engine : Engine, engine.process (Text.quotedTag q text) =
        .ok (Code.function engine.compiler.context (Text.jsonString text)) := by
  refine ⟨⟨rfl, rfl, rfl, fun c => unescape_of_not_mem⟩, fun s cs hmode hbody => ⟨?_, ?_⟩,
    fun text => ⟨?_, ?_⟩⟩
  · rintro body content rest h rfl
    exact s.next_closed hmode hq h hbody
  · intro h
    exact s.next_unclosed hmode hq hbody h
  · intro dialect
    exact Template.ofSource_quotedTag dialect hq text
  · intro engine
    exact engine.process_quotedTag hq text

/-- An escape in front of a quote, a backslash at the end of the source, and a text of closing
braces, quotes and a backslash. -/
theorem process_quoted_hostile :
    (Scanner.mk [' ', '"', '\\', 't', '"', '}'] 5 .tag).next =
      (⟨.string "\t", 6⟩, ⟨['}'], 10, .tag⟩) ∧
    (∃ content, (Scanner.mk ['"', 'a', '\\'] 5 .tag).next =
      (⟨.string content, 5⟩, ⟨[], 8, .tag⟩)) ∧
    (Engine.ofContext "c").process r#"{{"}}'\"\\"}}"# =
      .ok r#"function(c){return "}}'\"\\";}"# := by
  have hq : '"' = '"' ∨ '"' = '\'' := .inl rfl
  obtain ⟨-, hscan, htext⟩ := process_quoted hq
  refine ⟨?_, ?_, ?_⟩
  · have hbody : QuotedBody '"' ['\\', 't'] ['\t'] := .escape .nil
    exact (hscan _ _ rfl rfl).1 _ _ _ hbody rfl
  · have hopen : ¬∃ body content rest, QuotedBody '"' body content ∧
        ['a', '\\'] = body ++ '"' :: rest := by
      rintro ⟨body, content, rest, -, h⟩
      have hmem : '"' ∈ ['a', '\\'] := h ▸ List.mem_append_right body List.mem_cons_self
      exact absurd hmem (by decide)
    obtain ⟨-, content, -, -, hnext⟩ := (hscan ⟨['"', 'a', '\\'], 5, .tag⟩ _ rfl rfl).2 hopen
    exact ⟨_, hnext⟩
  · have hsource : Text.quotedTag '"' r#"}}'"\"# =
        r#"{{"}}'\"\\"}}"# := by
      cbv
    have hcode : Text.jsonString r#"}}'"\"# = r#""}}'\"\\""# := by
      cbv
    rw [← hsource, (htext _).2, hcode]
    rfl

end Engine

end Stencil
