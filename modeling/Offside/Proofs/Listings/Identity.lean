import Offside.Proofs.Listings.Floats
import Offside.Proofs.Listings.Integers
import Offside.Proofs.Text.Boundary

/-!
# What a listing tells

Nothing that is listed for a token contains a tab or a line feed, so the lines of a listing are
those of its tokens, and the kind of a token and what is listed for it are cut apart at the first
tab. What is listed tells an integer and a float by their values, and any other token by its text.
So two readings have the same listing just when their tokens agree in this, one by one.
-/

namespace Offside

/-- Two tokens agree in what a listing tells of them: in their kinds, and besides in the value of an
    integer or a float, and in the text of any other token. -/
def Token.ListedAs (a b : Token) : Prop :=
  a.kind = b.kind ∧
    match a.kind with
    | .integer => a.literal = b.literal
    | .float => a.literal = b.literal
    | _ => a.value = b.value

/-- A line up to its first tab, and what stands behind the tab if there is one. -/
def cutAtTab (line : List Char) : List Char × Option (List Char) :=
  (line.takeWhile (· != '\t'), (line.dropWhile (· != '\t')).tail?)

namespace Token

/-- A token whose value does not matter is listed with its text. -/
def ShowsText (token : Token) : Prop :=
  token.kind ≠ .integer ∧ token.kind ≠ .float ∧ token.kind ≠ .boolean

theorem ShowsText.payload_eq {token : Token} (h : token.ShowsText) :
    Listing.payload token = token.value := by
  obtain ⟨hinteger, hfloat, hboolean⟩ := h
  rw [Listing.payload]
  split
  · contradiction
  · contradiction
  · contradiction
  · rfl

namespace Made

variable {token : Token} (h : token.Made)
include h

theorem exists_integer (hkind : token.kind = .integer) :
    ∃ value, token.literal = .integer value ∧
      Listing.payload token = String.ofList (integerText value) := by
  cases h with
  | mark origin mark column => cases hkind
  | lexeme placed origin hformed =>
    obtain ⟨text, htext, heq⟩ := exists_eq_integerLexeme hformed hkind
    refine ⟨denoted text, ?_, payload_integer htext heq origin⟩
    rw [Placed.token, heq, integerLexeme]

theorem exists_truth (hkind : token.kind = .boolean) :
    ∃ value : Bool, token.value = (if value then "True" else "False") ∧
      Listing.payload token = if value then "true" else "false" := by
  cases h with
  | mark origin mark column => cases hkind
  | lexeme placed origin hformed =>
    obtain ⟨column, lexeme⟩ := placed
    cases hformed with
    | trueWord => exact ⟨true, String.ofList_toList, rfl⟩
    | falseWord => exact ⟨false, String.ofList_toList, rfl⟩
    | _ => cases hkind

theorem clean_value {c : Char} (hmem : c ∈ token.value.toList) :
    inAlphabet c = true ∧ isBlank c = false := by
  cases h with
  | mark origin mark column => cases hmem
  | lexeme placed origin hformed =>
    rw [Placed.token, String.toList_ofList] at hmem
    exact ⟨hformed.solid.clean c hmem, hformed.solid.not_blank c hmem⟩

/-- What is listed for a token is made of characters of the alphabet, and has no blank. -/
theorem clean_payload {c : Char} (hmem : c ∈ (Listing.payload token).toList) :
    inAlphabet c = true ∧ isBlank c = false := by
  by_cases hinteger : token.kind = .integer
  · obtain ⟨value, -, hpayload⟩ := h.exists_integer hinteger
    have hsolid := (formed_integerLexeme (isIntegerText_integerText value)).solid
    rw [hpayload, String.toList_ofList] at hmem
    exact ⟨hsolid.clean c hmem, hsolid.not_blank c hmem⟩
  by_cases hfloat : token.kind = .float
  · obtain ⟨x, hx, -, hpayload⟩ := h.exists_float hfloat
    rw [hpayload, String.toList_ofList] at hmem
    exact clean_of_mem_write hx hmem
  by_cases hboolean : token.kind = .boolean
  · obtain ⟨value, -, hpayload⟩ := h.exists_truth hboolean
    rw [hpayload] at hmem
    exact clean_of_all (by cases value <;> decide) hmem
  · rw [ShowsText.payload_eq ⟨hinteger, hfloat, hboolean⟩] at hmem
    exact h.clean_value hmem

theorem not_mem_payload :
    '\t' ∉ (Listing.payload token).toList ∧ '\n' ∉ (Listing.payload token).toList := by
  refine ⟨fun hmem => ?_, fun hmem => ?_⟩
  · have hblank := (h.clean_payload hmem).2
    cases hblank
  · have hinside := (h.clean_payload hmem).1
    cases hinside

/-- What is listed tells a token from others of its kind, as far as it shows them. -/
theorem payload_eq_iff {other : Token} (hother : other.Made) (hkind : token.kind = other.kind) :
    Listing.payload token = Listing.payload other ↔ token.ListedAs other := by
  rw [ListedAs, and_iff_right hkind]
  cases hcase : token.kind with
  | integer =>
    obtain ⟨value, hliteral, hpayload⟩ := h.exists_integer hcase
    obtain ⟨value', hliteral', hpayload'⟩ := hother.exists_integer (hkind ▸ hcase)
    rw [hpayload, hpayload', String.ofList_inj, integerText_inj, hliteral, hliteral']
    exact (Literal.integer.injEq value value').symm ▸ Iff.rfl
  | float =>
    obtain ⟨x, hx, hliteral, hpayload⟩ := h.exists_float hcase
    obtain ⟨y, hy, hliteral', hpayload'⟩ := hother.exists_float (hkind ▸ hcase)
    rw [hpayload, hpayload', String.ofList_inj, Binary64.write_inj hx hy, hliteral, hliteral']
    exact (Literal.float.injEq x y).symm ▸ Iff.rfl
  | boolean =>
    obtain ⟨value, hvalue, hpayload⟩ := h.exists_truth hcase
    obtain ⟨value', hvalue', hpayload'⟩ := hother.exists_truth (hkind ▸ hcase)
    rw [hpayload, hpayload', hvalue, hvalue']
    show _ ↔ (if value then "True" else "False") = if value' then "True" else "False"
    cases value <;> cases value' <;> decide
  | _ =>
    have hshows : token.ShowsText := by simp [ShowsText, hcase]
    have hshows' : other.ShowsText := by simp [ShowsText, ← hkind, hcase]
    rw [hshows.payload_eq, hshows'.payload_eq]

/-- Tokens of the same kind and text are listed alike: the text of a lexeme determines it. -/
theorem listedAs_of_sameShape {other : Token} (hother : other.Made)
    (hshape : token.SameShape other) : token.ListedAs other := by
  obtain ⟨hkind, hvalue⟩ := hshape
  refine ⟨hkind, ?_⟩
  cases h with
  | mark origin mark column => exact hvalue
  | lexeme placed origin hformed =>
    cases hother with
    | mark origin' mark column =>
      have hlayout : (placed.token origin).kind = .layout mark := hkind
      rw [hlayout]
      exact hvalue
    | lexeme placed' origin' hformed' =>
      have htext : placed.lexeme.text = placed'.lexeme.text := String.ofList_inj.1 hvalue
      have hliteral := congrArg Lexeme.literal (hformed.eq_of_text_eq hformed' htext)
      split
      · exact hliteral
      · exact hliteral
      · exact hvalue

theorem value_of_isStructural (hmark : token.isStructural = true) : token.value = "" := by
  cases h with
  | mark origin mark column => rfl
  | lexeme placed origin hformed =>
    have hnot : (placed.token origin).isStructural = false :=
      isStructural_of_read? hformed.read?_text
    rw [hnot] at hmark
    cases hmark

end Made

end Token

theorem clean_name (kind : Kind) : '\t' ∉ kind.name.toList ∧ '\n' ∉ kind.name.toList := by
  rcases kind with (_ | _ | _ | _) | word | _ | _ | _ | _ | op
  case keyword => cases word <;> decide +kernel
  case operator => cases op <;> decide +kernel
  all_goals decide +kernel

theorem toList_line (token : Token) :
    (Listing.line Listing.defaultSeparator token).toList = token.kind.name.toList ++
      if token.isStructural then [] else '\t' :: (Listing.payload token).toList := by
  rw [Listing.line]
  split
  · rw [List.append_nil]
  · rw [String.toList_append, String.toList_append, List.append_assoc]
    rfl

/-- The line of a token is cut into the name of its kind and what is listed for it. -/
theorem cutAtTab_line (token : Token) :
    cutAtTab (Listing.line Listing.defaultSeparator token).toList =
      (token.kind.name.toList,
        if token.isStructural then none else some (Listing.payload token).toList) := by
  have hname : ∀ c ∈ token.kind.name.toList, (c != '\t') = true := fun c hmem =>
    bne_iff_ne.2 fun heq => (clean_name token.kind).1 (heq ▸ hmem)
  rw [cutAtTab, toList_line, List.takeWhile_append_of_pos hname,
    List.dropWhile_append_of_pos hname]
  split
  · rw [List.takeWhile_nil, List.append_nil]
    rfl
  · rw [List.takeWhile_cons_of_neg (by decide), List.dropWhile_cons_of_neg (by decide),
      List.append_nil]
    rfl

theorem Token.Made.feed_not_mem_line {token : Token} (h : token.Made) :
    '\n' ∉ (Listing.line Listing.defaultSeparator token).toList := by
  rw [toList_line, List.mem_append, not_or]
  refine ⟨(clean_name token.kind).2, ?_⟩
  split
  · exact List.not_mem_nil
  · rw [List.mem_cons, not_or]
    exact ⟨by decide, h.not_mem_payload.2⟩

/-- The lines of a listing are those of its tokens. -/
theorem splitAtNewlines_listing {tokens : List Token} (h : ∀ token ∈ tokens, token.Made) :
    splitAtNewlines (Listing.text Listing.defaultSeparator tokens).toList =
      tokens.map fun token => (Listing.line Listing.defaultSeparator token).toList := by
  induction tokens with
  | nil => rfl
  | cons token rest ih =>
    obtain ⟨htoken, hrest⟩ := List.forall_mem_cons.1 h
    have hfeed : "\n".toList = ['\n'] := rfl
    rw [Listing.text, List.map_cons, String.join_cons, String.toList_append, String.toList_append,
      List.append_assoc, hfeed, List.singleton_append,
      splitAtNewlines_line htoken.feed_not_mem_line, List.map_cons, ← ih hrest, Listing.text]

theorem Token.Made.line_eq_iff {token other : Token} (h : token.Made) (hother : other.Made) :
    Listing.line Listing.defaultSeparator token = Listing.line Listing.defaultSeparator other ↔
      token.ListedAs other := by
  constructor
  · intro hline
    have hcut := congrArg (fun line => cutAtTab line.toList) hline
    simp only [cutAtTab_line, Prod.mk.injEq, String.toList_inj] at hcut
    obtain ⟨hname, hpayload⟩ := hcut
    have hkind : token.kind = other.kind := by
      rw [← Option.some.injEq, ← Kind.ofName?_name, hname, Kind.ofName?_name]
    have hsame : token.isStructural = other.isStructural := congrArg Kind.isStructural hkind
    cases hmark : token.isStructural with
    | true =>
      have hvalue := h.value_of_isStructural hmark
      have hvalue' := hother.value_of_isStructural (hsame ▸ hmark)
      exact h.listedAs_of_sameShape hother ⟨hkind, hvalue.trans hvalue'.symm⟩
    | false =>
      rw [← hsame, hmark, if_neg Bool.false_ne_true, if_neg Bool.false_ne_true, Option.some.injEq,
        String.toList_inj] at hpayload
      exact (h.payload_eq_iff hother hkind).1 hpayload
  · intro hlisted
    have hpayload := (h.payload_eq_iff hother hlisted.1).2 hlisted
    rw [Listing.line, Listing.line, Token.isStructural, Token.isStructural, hlisted.1, hpayload]

section

variable {tokens tokens' : List Token} (h : ∀ token ∈ tokens, token.Made)
  (h' : ∀ token ∈ tokens', token.Made)
include h h'

/-- Whatever decides how a token is listed does so token by token. -/
theorem forall₂_listedAs {α : Type} {shown : Token → α}
    (hshown : ∀ a b : Token, a.Made → b.Made → shown a = shown b → a.ListedAs b)
    (hmap : tokens.map shown = tokens'.map shown) : List.Forall₂ Token.ListedAs tokens tokens' := by
  induction tokens generalizing tokens' with
  | nil =>
    obtain rfl := List.map_eq_nil_iff.1 hmap.symm
    exact .nil
  | cons a rest ih =>
    obtain ⟨b, rest', rfl, hhead, htail⟩ := List.map_eq_cons_iff.1 hmap.symm
    obtain ⟨ha, hrest⟩ := List.forall_mem_cons.1 h
    obtain ⟨hb, hrest'⟩ := List.forall_mem_cons.1 h'
    exact .cons (hshown a b ha hb hhead.symm) (ih hrest hrest' htail.symm)

/-- Listings are equal just when the tokens are listed alike, one by one. -/
theorem text_eq_iff :
    Listing.text Listing.defaultSeparator tokens = Listing.text Listing.defaultSeparator tokens' ↔
      List.Forall₂ Token.ListedAs tokens tokens' := by
  constructor
  · intro htext
    have hlines := congrArg (fun text => splitAtNewlines text.toList) htext
    simp only [splitAtNewlines_listing h, splitAtNewlines_listing h'] at hlines
    refine forall₂_listedAs h h' (fun a b ha hb hline => ?_) hlines
    exact (ha.line_eq_iff hb).1 (String.toList_inj.1 hline)
  · intro hlisted
    induction hlisted with
    | nil => rfl
    | cons hhead _ ih =>
      obtain ⟨ha, hrest⟩ := List.forall_mem_cons.1 h
      obtain ⟨hb, hrest'⟩ := List.forall_mem_cons.1 h'
      have htail := ih hrest hrest'
      rw [Listing.text, Listing.text] at htail ⊢
      rw [List.map_cons, List.map_cons, String.join_cons, String.join_cons, htail,
        (ha.line_eq_iff hb).2 hhead]

end

/-- Two readings without failure have the same listing just when they have equally many tokens and
    these agree one by one in what is listed of them; in particular if they agree in kind and text.
    Each token has one line of its own, and its kind and what is listed for it are found by cutting
    this line at its first tab. -/
theorem listing_tells {text text' : String} {file file' : Option String}
    {options options' : Options} {tokens tokens' : List Token}
    (h : tokenize text file options = .ok tokens)
    (h' : tokenize text' file' options' = .ok tokens') :
    (Listing.text Listing.defaultSeparator tokens = Listing.text Listing.defaultSeparator tokens' ↔
      List.Forall₂ Token.ListedAs tokens tokens') ∧
    (tokens.map (fun token => (token.kind, token.value)) =
        tokens'.map (fun token => (token.kind, token.value)) →
      Listing.text Listing.defaultSeparator tokens =
        Listing.text Listing.defaultSeparator tokens') ∧
    splitAtNewlines (Listing.text Listing.defaultSeparator tokens).toList =
      tokens.map (fun token => (Listing.line Listing.defaultSeparator token).toList) ∧
    ∀ token ∈ tokens, ∃ name, Kind.ofName? name = some token.kind ∧
      cutAtTab (Listing.line Listing.defaultSeparator token).toList =
        (name.toList,
          if token.isStructural then none else some (Listing.payload token).toList) := by
  have hmade := made_of_tokenize h
  have hmade' := made_of_tokenize h'
  have hlisting := text_eq_iff hmade hmade'
  refine ⟨hlisting, fun hshapes => ?_, splitAtNewlines_listing hmade,
    fun token _ => ⟨token.kind.name, token.kind.ofName?_name, cutAtTab_line token⟩⟩
  refine hlisting.2 (forall₂_listedAs hmade hmade' (fun a b ha hb hshape => ?_) hshapes)
  exact ha.listedAs_of_sameShape hb (Prod.ext_iff.1 hshape)

theorem listing_tells_integer :
    ∃ tokens tokens', tokenize "x = -007" = .ok tokens ∧ tokenize "x  =-7 # seven" = .ok tokens' ∧
      Listing.text Listing.defaultSeparator tokens =
        Listing.text Listing.defaultSeparator tokens' ∧
      List.Forall₂ Token.ListedAs tokens tokens' := by
  have hread : ∃ tokens, tokenize "x = -007" = .ok tokens :=
    exists_tokenize_eq_ok (by decide +kernel)
  have hread' : ∃ tokens, tokenize "x  =-7 # seven" = .ok tokens :=
    exists_tokenize_eq_ok (by decide +kernel)
  have hsame : (tokenize "x = -007").map (Listing.text Listing.defaultSeparator) =
      (tokenize "x  =-7 # seven").map (Listing.text Listing.defaultSeparator) := by
    decide +kernel
  obtain ⟨tokens, htokens⟩ := hread
  obtain ⟨tokens', htokens'⟩ := hread'
  rw [htokens, htokens'] at hsame
  have hlisting := Except.ok.inj hsame
  have hlisted := (listing_tells htokens htokens').1.1 hlisting
  exact ⟨tokens, tokens', htokens, htokens', hlisting, hlisted⟩

end Offside
