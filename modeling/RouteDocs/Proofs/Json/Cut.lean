import RouteDocs.Proofs.Json.Numeral
import RouteDocs.Proofs.Json.Storable
import RouteDocs.Proofs.Json.Text

/-!
# Tokens of what is written

A written value is cut into the tokens of its parts, with the tokens of the
signs between them. The spaces and the starts of lines that the writer puts in
leave no token. A number ends where a comma, the end of a line or the end of
the text follows, and after every value one of these does.

Results:
* `Cuts.trans`: cuts of two pieces one after the other.
* `cuts_writeAt`: a value is cut into its tokens, at any depth.
* `tokens_write`: a written value has the tokens of the value.
-/
namespace RouteDocs.Json

open Text (Symbol symbols symbols_append)

/-! ## Cuts -/

/-- A text is cut into tokens up to a rest, however long the cutting goes on. -/
def Cuts (s : List Symbol) (ts : List Token) (rest : List Symbol) : Prop :=
  ∀ fuel, s.length ≤ fuel →
    ∃ left, rest.length ≤ left ∧ tokensWithin fuel s = ts ++ tokensWithin left rest

namespace Cuts

variable {s middle rest : List Symbol} {ts us : List Token} {t : Token} {c : Char}

theorem refl (s : List Symbol) : Cuts s [] s := fun fuel hfuel => ⟨fuel, hfuel, rfl⟩

theorem trans (h : Cuts s ts middle) (h' : Cuts middle us rest) : Cuts s (ts ++ us) rest := by
  intro fuel hfuel
  obtain ⟨left, hleft, heq⟩ := h fuel hfuel
  obtain ⟨left', hleft', heq'⟩ := h' left hleft
  exact ⟨left', hleft', by rw [heq, heq', List.append_assoc]⟩

theorem space (hc : isSpace c = true) (rest : List Symbol) : Cuts (.char c :: rest) [] rest := by
  intro fuel hfuel
  cases fuel with
  | zero => cases hfuel
  | succ fuel =>
    refine ⟨fuel, Nat.le_of_succ_le_succ hfuel, ?_⟩
    rw [tokensWithin, if_pos hc]
    rfl

theorem token (hc : isSpace c = false) (h : readToken? c s = some (t, rest))
    (hlength : rest.length ≤ s.length) : Cuts (.char c :: s) [t] rest := by
  intro fuel hfuel
  cases fuel with
  | zero => cases hfuel
  | succ fuel =>
    refine ⟨fuel, hlength.trans (Nat.le_of_succ_le_succ hfuel), ?_⟩
    rw [tokensWithin, hc]
    simp only [Bool.false_eq_true, if_false, h]
    rfl

theorem tokens_eq (h : Cuts s ts []) : tokens s = ts := by
  obtain ⟨left, -, heq⟩ := h s.length le_rfl
  have hend : tokensWithin left [] = [] := by cases left <;> rfl
  rw [tokens, heq, hend, List.append_nil]

end Cuts

/-! ## Signs and starts of lines -/

theorem cuts_spaces (n : ℕ) (rest : List Symbol) :
    Cuts ((List.replicate n ' ').map .char ++ rest) [] rest := by
  induction n with
  | zero => exact .refl rest
  | succ n ih => exact (Cuts.space (by decide) _).trans ih

/-- The start of a line leaves no token. -/
theorem cuts_newLine (depth : ℕ) (rest : List Symbol) :
    Cuts (symbols (newLine depth) ++ rest) [] rest := by
  rw [symbols, newLine, String.toList_ofList]
  exact (Cuts.space (by decide) _).trans (cuts_spaces (2 * depth) rest)

theorem endsValue_newLine (depth : ℕ) (rest : List Symbol) :
    EndsValue (symbols (newLine depth) ++ rest) := by
  rw [symbols, newLine, String.toList_ofList]
  intro c more h
  cases h
  exact .inr rfl

theorem endsValue_comma (rest : List Symbol) : EndsValue (symbols "," ++ rest) := by
  intro c more h
  cases h
  exact .inl rfl

theorem cuts_comma (rest : List Symbol) : Cuts (symbols "," ++ rest) [.comma] rest :=
  .token (by decide) rfl le_rfl

theorem cuts_openList (rest : List Symbol) : Cuts (symbols "[" ++ rest) [.openList] rest :=
  .token (by decide) rfl le_rfl

theorem cuts_closeList (rest : List Symbol) : Cuts (symbols "]" ++ rest) [.closeList] rest :=
  .token (by decide) rfl le_rfl

theorem cuts_openMapping (rest : List Symbol) : Cuts (symbols "\x7b" ++ rest) [.openMapping] rest :=
  .token (by decide) rfl le_rfl

theorem cuts_closeMapping (rest : List Symbol) :
    Cuts (symbols "\x7d" ++ rest) [.closeMapping] rest :=
  .token (by decide) rfl le_rfl

theorem cuts_colon (rest : List Symbol) : Cuts (symbols ": " ++ rest) [.colon] rest :=
  (Cuts.token (by decide) rfl le_rfl).trans (.space (by decide) rest)

/-! ## Values without parts -/

/-- A word that stands for a value. -/
theorem cuts_word {c : Char} {w : List Char} {t : Token} (hc : isSpace c = false)
    (h : ∀ rest, readToken? c (w.map .char ++ rest) = some (t, rest)) (rest : List Symbol) :
    Cuts (.char c :: (w.map .char ++ rest)) [t] rest := by
  refine .token hc (h rest) ?_
  rw [List.length_append]
  omega

theorem cuts_null (rest : List Symbol) : Cuts (symbols "null" ++ rest) [.null] rest :=
  cuts_word (c := 'n') (w := ['u', 'l', 'l']) (by decide) (fun _ => rfl) rest

theorem cuts_bool (b : Bool) (rest : List Symbol) :
    Cuts (symbols (if b then "true" else "false") ++ rest) [.bool b] rest := by
  cases b with
  | true => exact cuts_word (c := 't') (w := ['r', 'u', 'e']) (by decide) (fun _ => rfl) rest
  | false => exact cuts_word (c := 'f') (w := ['a', 'l', 's', 'e']) (by decide) (fun _ => rfl) rest

theorem cuts_writtenText (s : String) (rest : List Symbol) :
    Cuts (symbols (writtenText s) ++ rest) [.text (some s)] rest := by
  rw [symbols_writtenText]
  refine .token (by decide) ?_ ?_
  · show (readText _).map _ = _
    rw [readText_writtenChars, Option.map_some]
    dsimp only
    rw [Text.textOfSymbols?_map, Option.map_some, String.ofList_toList]
  · rw [List.length_append, List.length_cons]
    omega

/-- Characters that are read as a number, whatever follows the value. -/
def IsNumber (negative : Bool) (chars : List Char) (t : Token) : Prop :=
  (∃ c more, chars = c :: more ∧ c.isDigit = true) ∧
    ∀ rest, EndsValue rest → readNumber? negative (chars.map .char ++ rest) = some (t, rest)

def signChars (negative : Bool) : List Char := if negative then ['-'] else []

theorem readToken?_digit {c : Char} (hc : c.isDigit = true) (rest : List Symbol) :
    readToken? c rest = readNumber? false (.char c :: rest) := by
  unfold readToken?
  split
  case h_12 => rw [if_pos hc]
  all_goals exact absurd hc (by decide)

theorem cuts_number {negative : Bool} {chars : List Char} {t : Token}
    (h : IsNumber negative chars t) {rest : List Symbol} (hend : EndsValue rest) :
    Cuts ((signChars negative ++ chars).map .char ++ rest) [t] rest := by
  obtain ⟨⟨c, more, rfl, hc⟩, hread⟩ := h
  have hlength (cs : List Char) : rest.length ≤ (cs.map Symbol.char ++ rest).length := by
    rw [List.length_append]
    omega
  cases negative with
  | true => exact .token (by decide) (hread rest hend) (hlength _)
  | false =>
    have hspace : isSpace c = false := by
      rw [Bool.eq_false_iff]
      intro hspace
      simp only [isSpace, Bool.or_eq_true, beq_iff_eq] at hspace
      rcases hspace with ((rfl | rfl) | rfl) | rfl <;> cases hc
    exact .token hspace ((readToken?_digit hc _).trans (hread rest hend)) (hlength more)

theorem isDigit_head {whole : List Char} (hw : IsWhole whole) (more : List Char) :
    ∃ c rest, whole ++ more = c :: rest ∧ c.isDigit = true := by
  obtain ⟨c, ds, rfl⟩ := List.exists_cons_of_ne_nil hw.some_digit
  exact ⟨c, ds ++ more, rfl, hw.digits c (List.mem_cons_self ..)⟩

theorem cuts_int (n : ℤ) {rest : List Symbol} (hend : EndsValue rest) :
    Cuts (symbols (toString n) ++ rest) [.int n] rest := by
  have htext : (toString n).toList = signChars (decide (n < 0)) ++ Nat.toDigits 10 n.natAbs := by
    cases n with
    | ofNat n => exact Nat.toList_repr
    | negSucc n =>
      have hrepr : (toString (Int.negSucc n)).toList = "-".toList ++ (n.succ.repr).toList :=
        String.toList_append ..
      rw [hrepr, Nat.toList_repr, decide_eq_true (Int.negSucc_lt_zero n)]
      rfl
  rw [symbols, htext]
  refine cuts_number ⟨?_, fun more hmore => ?_⟩ hend
  · obtain ⟨c, ds, heq, hc⟩ := isDigit_head (isWhole_toDigits n.natAbs) []
    exact ⟨c, ds, (List.append_nil _).symm.trans heq, hc⟩
  · rw [readNumber?_int _ (isWhole_toDigits n.natAbs) hmore, Nat.ofDigitChars_ten_toDigits]
    by_cases hn : n < 0
    · have hvalue : -(n.natAbs : ℤ) = n := by omega
      simp only [RouteDocs.Numeral.signed, hn, decide_true, if_true, hvalue]
    · have hvalue : (n.natAbs : ℤ) = n := by omega
      simp only [RouteDocs.Numeral.signed, hn, decide_false, Bool.false_eq_true, if_false, hvalue]

/-- A double that was written is cut into one token. -/
theorem cuts_real {x : Binary64} (hx : x.isCanonical = true) {rest : List Symbol}
    (hend : EndsValue rest) : Cuts (symbols (x.format Binary64.fileFormat) ++ rest) [.real x] rest := by
  cases x with
  | infinite negative => cases hx
  | notANumber => cases hx
  | finite negative m e =>
    have hc : Binary64.IsCanonical m e := of_decide_eq_true hx
    have hsign : (if negative then "-" else "").toList = signChars negative := by
      cases negative <;> rfl
    by_cases hm : m = 0
    · subst hm
      have hzero : e = Binary64.minExponent := hc.full.resolve_left (by decide)
      have htext : ((Binary64.finite negative 0 e).format Binary64.fileFormat).toList =
          signChars negative ++ numeralChars ['0'] ['0'] none :=
        (String.toList_append ..).trans (congrArg (· ++ _) hsign)
      rw [symbols, htext]
      refine cuts_number ⟨⟨'0', ['.', '0'], rfl, rfl⟩, fun more hmore => ?_⟩ hend
      have hread : readNumber? negative ((numeralChars ['0'] ['0'] none).map .char ++ more) =
          some (.real (.finite negative 0 Binary64.minExponent), more) :=
        readNumber?_real negative isWhole_zero (areDigits_replicate 1)
          (.inl (List.cons_ne_nil _ _)) hmore
      rw [hzero]
      exact hread
    · have htext : ((Binary64.finite negative m e).format Binary64.fileFormat).toList =
          signChars negative ++ (Binary64.formatDecimal Binary64.fileFormat
            (Binary64.shortest m e).1 (Binary64.shortest m e).2).toList := by
        rw [Binary64.format]
        simp only [hm, if_false]
        rw [String.toList_append, hsign]
      rw [symbols, htext]
      refine cuts_number ⟨?_, fun more hmore => ?_⟩ hend
      · obtain ⟨whole, fraction, exponent, hdenotes, hchars⟩ :=
          exists_numeral (Binary64.shortest_spec (Nat.pos_of_ne_zero hm) hc).1
            (Binary64.shortest m e).2
        rw [hchars]
        exact isDigit_head hdenotes.isWhole _
      · exact readNumber?_formatDecimal negative (Nat.pos_of_ne_zero hm) hc hmore

/-! ## Values -/

mutual

def valueTokens : Value → List Token
  | .null => [.null]
  | .bool b => [.bool b]
  | .int n => [.int n]
  | .real x => [.real x]
  | .text s => [.text (some s)]
  | .list items => .openList :: (itemTokens items ++ [.closeList])
  | .mapping members => .openMapping :: (memberTokens members ++ [.closeMapping])

def itemTokens : List Value → List Token
  | [] => []
  | [v] => valueTokens v
  | v :: rest => valueTokens v ++ .comma :: itemTokens rest

def memberTokens : List (String × Value) → List Token
  | [] => []
  | [(k, v)] => .text (some k) :: .colon :: valueTokens v
  | (k, v) :: rest => .text (some k) :: .colon :: (valueTokens v ++ .comma :: memberTokens rest)

end

theorem writeItems_cons_cons (depth : ℕ) (v w : Value) (items : List Value) :
    writeItems depth (v :: w :: items) =
      newLine depth ++ writeAt depth v ++ "," ++ writeItems depth (w :: items) :=
  rfl

theorem writeMembers_cons_cons (depth : ℕ) (k : String) (v : Value) (m : String × Value)
    (members : List (String × Value)) :
    writeMembers depth ((k, v) :: m :: members) =
      newLine depth ++ writtenText k ++ ": " ++ writeAt depth v ++ "," ++
        writeMembers depth (m :: members) :=
  rfl

mutual

/-- A value is cut into its tokens, at any depth. -/
theorem cuts_writeAt (depth : ℕ) {rest : List Symbol} (hend : EndsValue rest) : ∀ v : Value,
    v.IsJson → Cuts (symbols (writeAt depth v) ++ rest) (valueTokens v) rest
  | .null, _ => cuts_null rest
  | .bool b, _ => cuts_bool b rest
  | .int n, _ => by
    rw [writeAt]
    exact cuts_int n hend
  | .real x, .real h => by
    rw [writeAt]
    exact cuts_real h hend
  | .text s, _ => by
    rw [writeAt]
    exact cuts_writtenText s rest
  | .list [], _ => by
    rw [writeAt, valueTokens, itemTokens]
    have hempty : symbols "[]" ++ rest = symbols "[" ++ (symbols "]" ++ rest) := rfl
    rw [List.isEmpty_nil, if_pos rfl, hempty]
    exact (cuts_openList _).trans (cuts_closeList rest)
  | .list (v :: items), h => by
    rw [writeAt, List.isEmpty_cons]
    simp only [Bool.false_eq_true, if_false, symbols_append, List.append_assoc]
    have hitems := cuts_writeItems (depth + 1) (endsValue_newLine depth (symbols "]" ++ rest))
      (v :: items) (Value.isJson_list.1 h)
    exact (cuts_openList _).trans
      (hitems.trans ((cuts_newLine depth _).trans (cuts_closeList rest)))
  | .mapping [], _ => by
    rw [writeAt, valueTokens, memberTokens]
    have hempty : symbols "\x7b\x7d" ++ rest = symbols "\x7b" ++ (symbols "\x7d" ++ rest) := rfl
    rw [List.isEmpty_nil, if_pos rfl, hempty]
    exact (cuts_openMapping _).trans (cuts_closeMapping rest)
  | .mapping (m :: members), h => by
    rw [writeAt, List.isEmpty_cons]
    simp only [Bool.false_eq_true, if_false, symbols_append, List.append_assoc]
    have hmembers := cuts_writeMembers (depth + 1) (endsValue_newLine depth (symbols "\x7d" ++ rest))
      (m :: members) (Value.isJson_mapping.1 h).2
    exact (cuts_openMapping _).trans
      (hmembers.trans ((cuts_newLine depth _).trans (cuts_closeMapping rest)))

theorem cuts_writeItems (depth : ℕ) {rest : List Symbol} (hend : EndsValue rest) :
    ∀ items : List Value, (∀ v ∈ items, v.IsJson) →
      Cuts (symbols (writeItems depth items) ++ rest) (itemTokens items) rest
  | [], _ => .refl rest
  | [v], h => by
    rw [writeItems, symbols_append, List.append_assoc]
    exact (cuts_newLine depth _).trans (cuts_writeAt depth hend v (h v (List.mem_cons_self ..)))
  | v :: w :: items, h => by
    obtain ⟨hv, hrest⟩ := List.forall_mem_cons.1 h
    rw [writeItems_cons_cons]
    simp only [symbols_append, List.append_assoc]
    have hv := cuts_writeAt depth
      (endsValue_comma (symbols (writeItems depth (w :: items)) ++ rest)) v hv
    have hitems := cuts_writeItems depth hend (w :: items) hrest
    exact (cuts_newLine depth _).trans (hv.trans ((cuts_comma _).trans hitems))

theorem cuts_writeMembers (depth : ℕ) {rest : List Symbol} (hend : EndsValue rest) :
    ∀ members : List (String × Value), (∀ m ∈ members, m.2.IsJson) →
      Cuts (symbols (writeMembers depth members) ++ rest) (memberTokens members) rest
  | [], _ => .refl rest
  | [(k, v)], h => by
    rw [writeMembers]
    simp only [symbols_append, List.append_assoc]
    have hv := cuts_writeAt depth hend v (h (k, v) (List.mem_cons_self ..))
    exact (cuts_newLine depth _).trans ((cuts_writtenText k _).trans ((cuts_colon _).trans hv))
  | (k, v) :: m :: members, h => by
    obtain ⟨hv, hrest⟩ := List.forall_mem_cons.1 h
    rw [writeMembers_cons_cons]
    simp only [symbols_append, List.append_assoc]
    have hv := cuts_writeAt depth
      (endsValue_comma (symbols (writeMembers depth (m :: members)) ++ rest)) v hv
    have hmembers := cuts_writeMembers depth hend (m :: members) hrest
    exact (cuts_newLine depth _).trans ((cuts_writtenText k _).trans
      ((cuts_colon _).trans (hv.trans ((cuts_comma _).trans hmembers))))

end

/-- A written value, at the end of a text or of its last line, has the tokens of the value. -/
theorem tokens_write {v : Value} (hv : v.IsJson) {tail : String} (htail : tail = "" ∨ tail = "\n") :
    tokens (symbols (write v ++ tail)) = valueTokens v := by
  have hend : EndsValue (symbols tail) := by
    rcases htail with rfl | rfl
    · exact nofun
    · intro c more h
      cases h
      exact .inr rfl
  have hrest : Cuts (symbols tail) [] [] := by
    rcases htail with rfl | rfl
    · exact .refl []
    · exact .space (by decide) []
  have hcuts := (cuts_writeAt 0 hend v hv).trans hrest
  rw [List.append_nil] at hcuts
  rw [write, symbols_append]
  exact hcuts.tokens_eq

end RouteDocs.Json
