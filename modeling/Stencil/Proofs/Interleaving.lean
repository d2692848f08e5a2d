/-
Slots of a tag in another order.

Slots are `Interleaved` in another way if the positional slots keep their order, and so do the slots
of each key.  The source with the slots in the other order has the same template but for the order
of named arguments, whatever stands around the tag.

* `Interleaved.reordered` — the arguments are those of the other slots, in some order;
* `TagPlace` — all of a source but the slots of one tag; other slots there leave all lexemes around
  them as they are (`TagPlace.StandsIn.exists_front`);
* `Template.readAlone` — in a call, a block or a section that stands alone any slots can stand;
* `Template.ofSource_exchange` — and wherever slots stand in a source that has a template;
* `Template.ofSource_interleaved` — the sources of both orders.
-/
import Mathlib
import Stencil.Proofs.Blanks
import Stencil.Proofs.OneTag.Preserved
import Stencil.Proofs.SlotText
import Stencil.Proofs.Writing

namespace Stencil

open Text (byteLength)
open Grammar (Slots Collects Derives)

/-! ### Slots in another order -/

namespace Grammar

/-- Whether slots are those of the first list in another order, in which the positional slots keep
their order and the slots of each key keep theirs. -/
structure Interleaved (slots slots' : List (Option String × Value)) : Prop where
  perm : slots.Perm slots'
  filter_eq : ∀ key?, slots.filter (·.1 = key?) = slots'.filter (·.1 = key?)

variable {slots slots' : List (Option String × Value)} {args args' : Arguments}

/-- What is found under a key depends on the slots of this key only. -/
theorem lookup_eq_head?_filter (slots : List (Option String × Value)) (key? : Option String) :
    slots.lookup key? = ((slots.filter (·.1 = key?)).map Prod.snd).head? := by
  induction slots with
  | nil => rfl
  | cons s slots ih =>
    obtain ⟨k, value⟩ := s
    by_cases hk : k = key?
    · simp [hk]
    · rw [List.lookup_cons, beq_false_of_ne (Ne.symm hk),
        List.filter_cons_of_neg (by simpa using hk)]
      exact ih

/-- The positional values are those of the slots without a key. -/
theorem Collects.positional_eq (h : Collects slots args) :
    args.positional = (slots.filter (·.1 = none)).map Prod.snd := by
  rw [h.positional]
  refine congrArg _ (List.filter_congr fun s _ => ?_)
  cases s.1 <;> rfl

/-- The value of a key is that of its last slot. -/
theorem Collects.get?_eq (h : Collects slots args) (key : String) :
    args.named.get? key = ((slots.filter (·.1 = some key)).map Prod.snd).getLast? := by
  rw [h.get?, lookup_eq_head?_filter, List.filter_reverse, List.map_reverse, List.head?_reverse]

/-- Slots in another order make the same arguments, the named ones perhaps in another order. -/
theorem Interleaved.reordered (h : Interleaved slots slots') (hargs : Collects slots args)
    (hargs' : Collects slots' args') : args.Reordered args' := by
  constructor
  · rw [hargs.positional_eq, hargs'.positional_eq, h.filter_eq]
  · have hnodup (as : Arguments) : as.named.entries.Nodup := .of_map Prod.fst as.named.nodup_keys
    refine (List.perm_ext_iff_of_nodup (hnodup args) (hnodup args')).mpr fun ⟨key, value⟩ => ?_
    rw [← NamedArguments.get?_eq_some_iff, ← NamedArguments.get?_eq_some_iff, hargs.get?_eq,
      hargs'.get?_eq, h.filter_eq]

/-- Slots of different keys may change places with the next one. -/
theorem Interleaved.swap {s s' : Option String × Value} (h : s.1 ≠ s'.1)
    (before after : List (Option String × Value)) :
    Interleaved (before ++ s :: s' :: after) (before ++ s' :: s :: after) := by
  refine ⟨(List.Perm.swap s' s after).append_left before, fun key? => ?_⟩
  rw [List.filter_append, List.filter_append]
  by_cases hs : s.1 = key?
  · have hs' : s'.1 ≠ key? := fun hs' => h (hs.trans hs'.symm)
    simp [hs, hs']
  · simp [List.filter_cons, hs]

theorem Interleaved.trans {slots'' : List (Option String × Value)}
    (h : Interleaved slots slots') (h' : Interleaved slots' slots'') :
    Interleaved slots slots'' :=
  ⟨h.perm.trans h'.perm, fun key? => (h.filter_eq key?).trans (h'.filter_eq key?)⟩

theorem Interleaved.ne_nil (h : Interleaved slots slots') (hne : slots ≠ []) : slots' ≠ [] := by
  rintro rfl
  exact hne h.perm.eq_nil

end Grammar

open Grammar (Interleaved)

/-! ### Places of slots -/

theorem lexemesFrom_tagClose (rest : List Char) :
    lexemesFrom .tag ('}' :: '}' :: rest) = .tagClose :: lexemesFrom .text rest := by
  have hclose : Lexeme.tagClose.Spelled ['}', '}'] rest := rfl
  exact lexemesFrom_spelled rfl hclose

/-- A place for the slots of a call, a block or a section: all of a source but the slots of one
tag. -/
structure TagPlace where
  before : List Char
  /-- What opens the tag. -/
  opener : Lexeme
  /-- The blanks in front of the name. -/
  gap : List Char
  name : String
  /-- What stands behind the tag. -/
  after : List Char
  opens : opener = .tagOpen ∨ opener = .blockOpen
  isBlank_gap : ∀ c ∈ gap, isBlank c = true
  isName_name : isName name.toList = true

namespace TagPlace

variable {place : TagPlace} {text text' : List Char} {slots slots' : List (Option String × Value)}

/-- The tag with slots, and all behind it. -/
def tag (place : TagPlace) (text : List Char) : List Char :=
  place.opener.spelling ++
    (place.gap ++ (place.name.toList ++ (text ++ ('}' :: '}' :: place.after))))

/-- The whole source with slots in the tag. -/
def source (place : TagPlace) (text : List Char) : String :=
  String.ofList (place.before ++ place.tag text)

/-- Whether the tag with these slots is one: a token opens it, and it does not stand in the middle
of another tag's quoted text. -/
def StandsIn (place : TagPlace) (text : List Char) : Prop :=
  ⟨place.opener, byteLength place.before⟩ ∈ (Scanner.ofSource (place.source text)).tokens

theorem modeOf_opener (place : TagPlace) : place.opener.modeOf = .text := by
  rcases place.opens with h | h
  · rw [h]
    rfl
  · rw [h]
    rfl

theorem modeAfter_opener (place : TagPlace) (mode : Mode) :
    place.opener.modeAfter mode = .tag := by
  rcases place.opens with h | h
  · rw [h]
    rfl
  · rw [h]
    rfl

theorem openBraces_prefix_tag (place : TagPlace) (text : List Char) :
    openBraces <+: place.tag text := by
  rw [tag]
  rcases place.opens with h | h
  · rw [h]
    exact List.prefix_append _ _
  · rw [h, Lexeme.spelling, List.append_assoc]
    exact List.prefix_append _ _

/-- Behind what opens the tag comes a blank or the start of the name. -/
theorem head?_gap_ne (place : TagPlace) {d : Char} (hblank : isBlank d = false)
    (hname : startsName d = false) (rest : List Char) :
    (place.gap ++ (place.name.toList ++ rest)).head? ≠ some d := by
  have hgap := place.isBlank_gap
  have hstart := place.isName_name
  intro heq
  generalize place.gap = gap, place.name.toList = name at hgap hstart heq
  rcases gap with _ | ⟨c, gap⟩
  · rcases name with _ | ⟨c, name⟩
    · cases hstart
    · exact ne_of_class (Bool.and_eq_true_iff.mp hstart).1 hname (Option.some.inj heq)
  · exact ne_of_class (hgap c List.mem_cons_self) hblank (Option.some.inj heq)

theorem spelled_opener (place : TagPlace) (rest : List Char) :
    place.opener.Spelled place.opener.spelling
      (place.gap ++ (place.name.toList ++ rest)) := by
  rcases place.opens with h | h
  · rw [h]
    exact ⟨rfl, place.head?_gap_ne rfl rfl rest, place.head?_gap_ne rfl rfl rest⟩
  · rw [h]
    rfl

/-- The tag is taken off as its own lexemes, and all behind it as what it is alone. -/
theorem exists_lexemes_tag (htext : SlotsText text slots) :
    ∃ ls, Slots ls slots ∧ ∀ place : TagPlace, lexemesFrom .text (place.tag text) =
      tagLexemes place.opener place.name ls ++ lexemesFrom .text place.after := by
  obtain ⟨ls, hls, hlexemes⟩ := htext.lexemesFrom
  refine ⟨ls, hls, fun place => ?_⟩
  have hends : EndsWord ('}' :: '}' :: place.after) := endsWord_cons rfl _
  have hname : (Lexeme.identifier place.name).Spelled place.name.toList
      (text ++ ('}' :: '}' :: place.after)) :=
    ⟨rfl, place.isName_name, htext.endsWord hends⟩
  rw [tag, lexemesFrom_spelled place.modeOf_opener (place.spelled_opener _),
    place.modeAfter_opener, lexemesFrom_blanks place.isBlank_gap, lexemesFrom_inside rfl rfl hname,
    hlexemes _ hends, lexemesFrom_tagClose, tagLexemes]
  simp only [List.cons_append, List.append_assoc, List.nil_append]

/-- All in front of the tag is made up of pieces that lead outside of tags and on which another tag
can follow. -/
theorem StandsIn.exists_pieces (h : place.StandsIn text) :
    ∃ front, place.before = Piece.join front ∧ Mode.text.behind (front.map Piece.lexeme) = .text ∧
      Extensible front := by
  obtain ⟨pieces, trail, hcut, htokens⟩ := (Scanner.ofSource (place.source text)).cut_tokens
  rw [StandsIn, ← htokens] at h
  obtain ⟨p, hp, htoken⟩ := List.mem_map.mp h
  obtain ⟨front, back, rfl⟩ := List.append_of_mem hp
  change Cut .text 0 (place.source text).toList (front ++ p :: back) trail at hcut
  obtain ⟨-, hgap, hmode, hspelled, -⟩ := hcut.drop.head
  have hopener : p.lexeme = place.opener := congrArg Token.lexeme htoken
  have hbehind : Mode.text.behind (front.map Piece.lexeme) = .text := by
    rw [← hmode, hopener, place.modeOf_opener]
  refine ⟨front, ?_, hbehind, ?_⟩
  · -- The token stands behind the pieces, and where the tag starts.
    have hposition := hcut.position_eq
    rw [htoken, hgap hbehind, List.append_nil, Nat.zero_add] at hposition
    have hchars := hcut.eq_join
    rw [source, String.toList_ofList, Piece.join_append, List.append_assoc] at hchars
    exact (Text.eq_of_append_eq hchars hposition).1
  · refine extensible_of_ne_nil hcut ?_
    rw [Piece.join_cons]
    simp [hspelled.ne_nil]

/-- Other slots leave the lexemes in front of the tag as they are, and with them, too, it is a
tag. -/
theorem StandsIn.exists_front (h : place.StandsIn text) :
    ∃ front, ∀ text' slots', SlotsText text' slots' → place.StandsIn text' ∧
      (Scanner.ofSource (place.source text')).tokens.map Token.lexeme =
        front ++ lexemesFrom .text (place.tag text') := by
  obtain ⟨front, hbefore, hbehind, hextensible⟩ := h.exists_pieces
  refine ⟨front.map Piece.lexeme, fun text' slots' htext' => ?_⟩
  obtain ⟨more, trail', hmore, hlexemes⟩ :=
    exists_cut_of_lexemesFrom .text (place.tag text') (byteLength (Piece.join front))
  have hseparates : (Mode.text.behind (front.map Piece.lexeme)).Separates (place.tag text') := by
    rw [hbehind]
    exact ⟨nofun, fun _ => .inr (place.openBraces_prefix_tag text')⟩
  have hwhole := hextensible _ more trail' hseparates (hbehind.symm ▸ hmore)
  rw [StandsIn, Scanner.ofSource, source, String.toList_ofList, hbefore, hwhole.tokens_eq]
  constructor
  · -- The first piece behind those in front is what opens the tag.
    obtain ⟨ls, -, htag⟩ := exists_lexemes_tag htext'
    rw [htag, tagLexemes, List.cons_append, List.map_eq_cons_iff] at hlexemes
    obtain ⟨q, others, rfl, hq, -⟩ := hlexemes
    obtain ⟨-, hgap, -, -, hposition⟩ := hmore.head
    rw [hgap rfl, Text.byteLength_nil, Nat.add_zero] at hposition
    refine List.mem_map.mpr ⟨q, List.mem_append_right _ List.mem_cons_self, ?_⟩
    rw [← hq, ← hposition]
    rfl
  · rw [← hlexemes, List.map_map, List.map_append]
    rfl

end TagPlace

/-! ### Tags with nothing around them -/

/-- A tag of a block that holds its name only. -/
def bareTag (opener : Lexeme) (name : String) : List Char :=
  opener.spelling ++ (name.toList ++ ['}', '}'])

theorem lexemesFrom_bareTag {opener : Lexeme} {name : String}
    (hopener : opener = .blockOpen ∨ opener = .blockClose) (hname : isName name.toList = true)
    (rest : List Char) : lexemesFrom .text (bareTag opener name ++ rest) =
      tagLexemes opener name [] ++ lexemesFrom .text rest := by
  have hmode : opener.modeOf = .text ∧ opener.modeAfter .text = .tag := by
    rcases hopener with rfl | rfl <;> exact ⟨rfl, rfl⟩
  have hspelled (cs : List Char) : opener.Spelled opener.spelling cs := by
    rcases hopener with rfl | rfl <;> rfl
  have hidentifier : (Lexeme.identifier name).Spelled name.toList ('}' :: '}' :: rest) :=
    ⟨rfl, hname, endsWord_cons rfl _⟩
  rw [bareTag, List.append_assoc, List.append_assoc, lexemesFrom_spelled hmode.1 (hspelled _),
    hmode.2, List.cons_append, List.cons_append, List.nil_append,
    lexemesFrom_inside rfl rfl hidentifier, lexemesFrom_tagClose]
  rfl

theorem lexemesFrom_nil : lexemesFrom .text [] = [] :=
  (Cut.nil (List.forall_mem_nil _) fun _ => rfl : Cut .text 0 [] [] []).lexemesFrom_eq

/-- Behind the tag that closes a block comes nothing. -/
theorem lexemesFrom_blockClose {name : String} (hname : isName name.toList = true) :
    lexemesFrom .text (bareTag .blockClose name) = tagLexemes .blockClose name [] := by
  have hclose := lexemesFrom_bareTag (.inr rfl) hname []
  rwa [List.append_nil, lexemesFrom_nil, List.append_nil] at hclose

namespace TagPlace

/-- A call with nothing around it. -/
def ofCall (name : String) (hname : isName name.toList = true) : TagPlace where
  before := []
  opener := .tagOpen
  gap := []
  name
  after := []
  opens := .inl rfl
  isBlank_gap := List.forall_mem_nil _
  isName_name := hname

/-- A block with nothing in it and nothing around it. -/
def ofBlock (name : String) (hname : isName name.toList = true) : TagPlace where
  before := []
  opener := .blockOpen
  gap := []
  name
  after := bareTag .blockClose name
  opens := .inr rfl
  isBlank_gap := List.forall_mem_nil _
  isName_name := hname

/-- A section with nothing in it, in a block that holds nothing else. -/
def ofSection (block keyword : String) (hkeyword : isName keyword.toList = true) : TagPlace where
  before := bareTag .blockOpen block
  opener := .tagOpen
  gap := []
  name := keyword
  after := bareTag .blockClose block
  opens := .inl rfl
  isBlank_gap := List.forall_mem_nil _
  isName_name := hkeyword

end TagPlace

namespace Template

variable {dialect : Dialect} {text : List Char} {slots : List (Option String × Value)}
  {args : Arguments}

/-- What a call, a block and a section with slots are read as, if nothing stands around them but the
block that a section needs. -/
structure ReadAlone (dialect : Dialect) (text : List Char) (args : Arguments) : Prop where
  call : ∀ name (hname : isName name.toList = true),
    ofSource dialect ((TagPlace.ofCall name hname).source text) = .ok ⟨[.call ⟨name, args⟩]⟩
  block : 0 < dialect.maxDepth → ∀ name (hname : isName name.toList = true),
    ofSource dialect ((TagPlace.ofBlock name hname).source text) =
      .ok ⟨[.block ⟨name, args, .ofItems [], []⟩]⟩
  keyword : 0 < dialect.maxDepth → ∀ block keyword, isName block.toList = true →
    ∀ hkeyword : isName keyword.toList = true, dialect.isSectionKeyword block keyword = true →
    ofSource dialect ((TagPlace.ofSection block keyword hkeyword).source text) =
      .ok ⟨[.block ⟨block, {}, .ofItems [], [.named keyword args]⟩]⟩

/-- A source has the template that its lexemes derive. -/
theorem ofSource_of_derives {cs : List Char} {template : Template}
    (hderives : Derives dialect.isSectionKeyword (lexemesFrom .text cs) template)
    (hdepth : template.nesting ≤ dialect.maxDepth) :
    ofSource dialect (String.ofList cs) = .ok template := by
  refine Grammar.ofSource_eq_ok_iff_ofTokens.mpr (Grammar.ofTokens_eq_ok_iff.mpr ⟨?_, hdepth⟩)
  rwa [Scanner.ofSource, String.toList_ofList]

/-- Outside of blocks a name with slots behind it is a call. -/
theorem ofSource_call (htext : SlotsText text slots) (hne : slots ≠ [])
    (hargs : Collects slots args) {name : String} (hname : isName name.toList = true) :
    ofSource dialect ((TagPlace.ofCall name hname).source text) = .ok ⟨[.call ⟨name, args⟩]⟩ := by
  obtain ⟨ls, hls, hlexemes⟩ := TagPlace.exists_lexemes_tag htext
  have hall : lexemesFrom .text ([] ++ (TagPlace.ofCall name hname).tag text) =
      tagLexemes .tagOpen name ls ++ [] := by
    rw [List.nil_append, hlexemes]
    exact congrArg _ lexemesFrom_nil
  have hstart : ¬Grammar.StartsSection dialect.isSectionKeyword none (.identifier name :: ls) := by
    rintro ⟨n, k, hn, -⟩
    cases hn
  refine ofSource_of_derives (hall ▸ ?_) (Nat.zero_le _)
  exact .cons (.tag (.call name hls hne hargs) hstart) .nil

theorem ofSource_block (htext : SlotsText text slots) (hargs : Collects slots args)
    (hroom : 0 < dialect.maxDepth) {name : String} (hname : isName name.toList = true) :
    ofSource dialect ((TagPlace.ofBlock name hname).source text) =
      .ok ⟨[.block ⟨name, args, .ofItems [], []⟩]⟩ := by
  obtain ⟨ls, hls, hlexemes⟩ := TagPlace.exists_lexemes_tag htext
  have hall : lexemesFrom .text ([] ++ (TagPlace.ofBlock name hname).tag text) =
      tagLexemes .blockOpen name ls ++ tagLexemes .blockClose name [] := by
    rw [List.nil_append, hlexemes]
    exact congrArg _ (lexemesFrom_blockClose hname)
  have hblock : Grammar.OneBlock dialect.isSectionKeyword _ _ := .mk name hls hargs .nil .nil
  have hitems := Grammar.Items.cons (b := none) (.block hblock) .nil
  refine ofSource_of_derives (hall ▸ ?_) hroom
  simpa only [Derives, tagLexemes, List.cons_append, List.append_assoc, List.nil_append,
    List.append_nil] using hitems

theorem ofSource_section (htext : SlotsText text slots) (hargs : Collects slots args)
    (hroom : 0 < dialect.maxDepth) {block keyword : String} (hname : isName block.toList = true)
    (hkeyword : isName keyword.toList = true)
    (hopens : dialect.isSectionKeyword block keyword = true) :
    ofSource dialect ((TagPlace.ofSection block keyword hkeyword).source text) =
      .ok ⟨[.block ⟨block, {}, .ofItems [], [.named keyword args]⟩]⟩ := by
  obtain ⟨ls, hls, hlexemes⟩ := TagPlace.exists_lexemes_tag htext
  have hall : lexemesFrom .text (bareTag .blockOpen block ++
      (TagPlace.ofSection block keyword hkeyword).tag text) =
      tagLexemes .blockOpen block [] ++
        (tagLexemes .tagOpen keyword ls ++ tagLexemes .blockClose block []) := by
    rw [lexemesFrom_bareTag (.inl rfl) hname, hlexemes]
    exact congrArg (fun after => _ ++ (_ ++ after)) (lexemesFrom_blockClose hname)
  have hnone : Collects [] {} := Grammar.collects_collect []
  have hblock := Grammar.OneBlock.mk block .nil hnone .nil (.cons hopens hls hargs .nil .nil)
  have hitems := Grammar.Items.cons (b := none) (.block hblock) .nil
  refine ofSource_of_derives (hall ▸ ?_) hroom
  simpa only [Derives, tagLexemes, Section.named, List.cons_append, List.append_assoc,
    List.nil_append, List.append_nil] using hitems

/-- Every list of slots can stand in a call, in a block and in a section. -/
theorem readAlone (htext : SlotsText text slots) (hne : slots ≠ []) (hargs : Collects slots args) :
    ReadAlone dialect text args where
  call _ hname := ofSource_call htext hne hargs hname
  block hroom _ hname := ofSource_block htext hargs hroom hname
  keyword hroom _ _ hname hkeyword hopens :=
    ofSource_section htext hargs hroom hname hkeyword hopens

end Template

/-! ### Sources with other slots -/

namespace Template

variable {dialect : Dialect} {template : Template} {text text' : List Char}
  {slots slots' : List (Option String × Value)} {args args' : Arguments}

/-- In a source with a template the slots of a tag can be exchanged for any other ones.  The
template differs in the arguments of this tag only. -/
theorem ofSource_exchange {place : TagPlace} (hstands : place.StandsIn text)
    (htext : SlotsText text slots) (hne : slots ≠ []) (hargs : Collects slots args)
    (htext' : SlotsText text' slots') (hne' : slots' ≠ []) (hargs' : Collects slots' args')
    (h : ofSource dialect (place.source text) = .ok template) :
    ∃ template', ofSource dialect (place.source text') = .ok template' ∧
      template.DiffersAt place.name args args' template' := by
  obtain ⟨front, hfront⟩ := hstands.exists_front
  obtain ⟨ls, hls, hlexemes⟩ := TagPlace.exists_lexemes_tag htext
  obtain ⟨ls', hls', hlexemes'⟩ := TagPlace.exists_lexemes_tag htext'
  have htokens := (hfront text slots htext).2
  have htokens' := (hfront text' slots' htext').2
  rw [hlexemes] at htokens
  rw [hlexemes'] at htokens'
  obtain ⟨template', hread, hdiffers⟩ := ofTokens_exchange place.opens hls hne hargs hls' hne'
    hargs' htokens htokens' (Grammar.ofSource_eq_ok_iff_ofTokens.mp h)
  exact ⟨template', Grammar.ofSource_eq_ok_iff_ofTokens.mpr hread, hdiffers⟩

/-- Slots can stand in every order in which the positional ones keep their order and those of each
key keep theirs.  A tag with them can be read alone, and it is a tag wherever the one with the first
order is.  If that source has a template, so has this one, and the two templates are the same. -/
theorem ofSource_interleaved (htext : SlotsText text slots) (htext' : SlotsText text' slots')
    (hne : slots ≠ []) (h : Interleaved slots slots') (dialect : Dialect) :
    ∃ args args', Collects slots args ∧ Collects slots' args' ∧ args.same args' = true ∧
      ReadAlone dialect text args ∧ ReadAlone dialect text' args' ∧
      ∀ place : TagPlace, place.StandsIn text → place.StandsIn text' ∧
        ∀ template, ofSource dialect (place.source text) = .ok template →
          ∃ template', ofSource dialect (place.source text') = .ok template' ∧
            template.DiffersAt place.name args args' template' ∧
            template.same template' = true := by
  have hargs := Grammar.collects_collect slots
  have hargs' := Grammar.collects_collect slots'
  have hne' := h.ne_nil hne
  have hreordered := h.reordered hargs hargs'
  refine ⟨_, _, hargs, hargs', Arguments.same_iff.mpr hreordered, readAlone htext hne hargs,
    readAlone htext' hne' hargs', fun place hstands => ⟨?_, fun template hread => ?_⟩⟩
  · obtain ⟨front, hfront⟩ := hstands.exists_front
    exact (hfront text' slots' htext').1
  · obtain ⟨template', hread', hdiffers⟩ :=
      ofSource_exchange hstands htext hne hargs htext' hne' hargs' hread
    exact ⟨template', hread', hdiffers, same_iff.mpr (hdiffers.reordered hreordered)⟩

/-- The key `k` is there twice, and its first slot goes behind that of `j`. -/
theorem ofSource_interleaved_repeatedKey :
    ∃ template', ofSource {} "{{#f j=2 k=1 k=b<c a}}{{/f}}" = .ok template' ∧
      same ⟨[.block ⟨"f", ⟨[.variable "a"], .ofList
        [("k", .comparison .lt (.variable "b") (.variable "c")), ("j", .number "2")]⟩,
        .ofItems [], []⟩]⟩ template' = true := by
  have hblank : ∀ c ∈ [' '], isBlank c = true := List.forall_mem_singleton.mpr rfl
  have hnone : ∀ c ∈ ([] : List Char), isBlank c = true := List.forall_mem_nil _
  have ha : SlotText ['a'] (none, .variable "a") := .positional (.primary (.name rfl))
  have hj : SlotText ['j', '=', '2'] (some "j", .number "2") :=
    @SlotText.named ['j'] ['2'] [] [] _ rfl (.primary (.number rfl)) hnone hnone
  have hk : SlotText ['k', '=', '1'] (some "k", .number "1") :=
    @SlotText.named ['k'] ['1'] [] [] _ rfl (.primary (.number rfl)) hnone hnone
  have hcompared : ExprText ['b', '<', 'c'] (.comparison .lt (.variable "b") (.variable "c")) :=
    @ExprText.comparison ['b'] ['c'] [] [] _ _ .lt (.name rfl) (.name rfl) nofun hnone hnone
  have hk' : SlotText ['k', '=', 'b', '<', 'c']
      (some "k", .comparison .lt (.variable "b") (.variable "c")) :=
    @SlotText.named ['k'] _ [] [] _ rfl hcompared hnone hnone
  have hcons {cs rest : List Char} {s : Option String × Value} {slots}
      (hslot : SlotText cs s) (hrest : SlotsText rest slots) :
      SlotsText (' ' :: (cs ++ rest)) (s :: slots) :=
    .cons (List.cons_ne_nil _ _) hblank hslot hrest
  have hnil : SlotsText [] [] := .nil hnone
  have htext := hcons hk (hcons ha (hcons hj (hcons hk' hnil)))
  have htext' := hcons hj (hcons hk (hcons hk' (hcons ha hnil)))
  have horder {k a j k' : Option String × Value} (hj : a.1 ≠ j.1) (hkj : k.1 ≠ j.1)
      (ha : a.1 ≠ k'.1) : Interleaved [k, a, j, k'] [j, k, k', a] :=
    ((Interleaved.swap hj [k] [k']).trans (.swap hkj [] [a, k'])).trans (.swap ha [j, k] [])
  obtain ⟨_, _, -, -, -, -, -, hplace⟩ := ofSource_interleaved htext htext'
    (List.cons_ne_nil _ _) (horder (by decide) (by decide) (by decide)) {}
  obtain ⟨-, hread⟩ := hplace (.ofBlock "f" rfl) <| by
    have htokens : (Scanner.ofSource "{{#f k=1 a j=2 k=b<c}}{{/f}}").tokens.head? =
        some ⟨.blockOpen, 0⟩ := by
      cbv
    exact List.mem_of_mem_head? htokens
  obtain ⟨template', hread', -, hsame⟩ := hread _ (by cbv)
  exact ⟨template', hread', hsame⟩

end Template

end Stencil
