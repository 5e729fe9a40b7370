import PostgresChat.Js.Json

/-!
# The numbers in a JSON text

Every number in a value that `JSON.parse` returns has been read from a numeral of the text, so it is
what some rational is rounded to. The tokens carry no other values than the words do, and a value
under construction contains what the tokens have brought.
-/

namespace Json

/-! ## Numbers in a value -/

/-- The value is the number, or contains it. -/
inductive HasNumber (n : JsNumber) : Json → Prop
  | number : HasNumber n (.number n)
  | item {items : List Json} {v : Json} (hv : v ∈ items) (h : HasNumber n v) :
    HasNumber n (.array items)
  | member {members : List (JsString × Json)} {name : JsString} {v : Json}
    (hv : (name, v) ∈ members) (h : HasNumber n v) : HasNumber n (.object members)

/-- All numbers in the value are of a kind. -/
def AllNumbers (P : JsNumber → Prop) (v : Json) : Prop := ∀ n, v.HasNumber n → P n

variable {P : JsNumber → Prop} {v : Json} {s name : JsString}

theorem allNumbers_number {n : JsNumber} (h : P n) : (number n).AllNumbers P := by
  rintro _ ⟨⟩
  exact h

theorem allNumbers_string : (string s).AllNumbers P := by
  rintro _ ⟨⟩

theorem allNumbers_array {items : List Json} :
    (array items).AllNumbers P ↔ ∀ v ∈ items, v.AllNumbers P := by
  constructor
  · exact fun h v hv n hn ↦ h n (.item hv hn)
  · rintro h n (_ | ⟨hv, hn⟩ | _)
    exact h _ hv n hn

theorem allNumbers_object {members : List (JsString × Json)} :
    (object members).AllNumbers P ↔ ∀ m ∈ members, m.2.AllNumbers P := by
  constructor
  · exact fun h m hm n hn ↦ h n (.member (show (m.1, m.2) ∈ members from hm) hn)
  · rintro h n (_ | _ | ⟨hv, hn⟩)
    exact h _ hv n hn

theorem AllNumbers.member (h : v.AllNumbers P) {w : Json} (hmember : v.member name = some w) :
    w.AllNumbers P := by
  cases v with
  | object members =>
    obtain ⟨m, hfind, rfl⟩ := Option.map_eq_some_iff.mp hmember
    exact allNumbers_object.mp h m (List.mem_reverse.mp (List.mem_of_find?_eq_some hfind))
  | null | bool | number | string | array => cases hmember

/-! ## Numbers of the tokens -/

/-- What some rational is rounded to. -/
def IsRounded (n : JsNumber) : Prop := ∃ q : ℚ, n = JsNumber.round q

theorem isRounded_numberOf {n : JsNumber} (h : numberOf s = some n) : IsRounded n := by
  simp only [numberOf, Option.ite_none_left_eq_some, Option.map_eq_some_iff] at h
  obtain ⟨-, e, -, rfl⟩ := h
  exact ⟨_, rfl⟩

theorem allNumbers_scalarOf (h : scalarOf s = some v) : v.AllNumbers IsRounded := by
  rw [scalarOf] at h
  split at h
  · cases h
    rintro _ ⟨⟩
  · split at h
    · cases h
      rintro _ ⟨⟩
    · split at h
      · cases h
        rintro _ ⟨⟩
      · obtain ⟨n, hn, rfl⟩ := Option.map_eq_some_iff.mp h
        exact allNumbers_number (isRounded_numberOf hn)

/-- The values the tokens bring. -/
def Token.AllNumbers (P : JsNumber → Prop) : Token → Prop
  | .scalar v => v.AllNumbers P
  | _ => True

theorem allNumbers_beginLexeme {u : UInt16} {tokens : List Token} {lexeme : Lexeme}
    (h : beginLexeme u = some (tokens, lexeme)) : ∀ t ∈ tokens, t.AllNumbers P := by
  rw [beginLexeme] at h
  split_ifs at h
  all_goals
    cases h
    first
      | exact fun t ht ↦ absurd ht List.not_mem_nil
      | exact fun t ht ↦ List.mem_singleton.mp ht ▸ trivial

theorem allNumbers_lexStep {u : UInt16} {lexeme lexeme' : Lexeme} {tokens : List Token}
    (h : lexStep lexeme u = some (tokens, lexeme')) : ∀ t ∈ tokens, t.AllNumbers IsRounded := by
  cases lexeme with
  | none => exact allNumbers_beginLexeme h
  | word read =>
    rw [lexStep] at h
    split at h
    · cases h
      exact fun t ht ↦ absurd ht List.not_mem_nil
    · simp only [Option.bind_eq_bind, Option.bind_eq_some_iff] at h
      obtain ⟨value, hvalue, ⟨tokens', lexeme''⟩, hbegin, h⟩ := h
      cases h
      intro t ht
      rcases List.mem_cons.mp ht with rfl | ht
      · exact allNumbers_scalarOf hvalue
      · exact allNumbers_beginLexeme hbegin t ht
  | string read =>
    rw [lexStep] at h
    split_ifs at h
    all_goals
      cases h
      first
        | exact fun t ht ↦ absurd ht List.not_mem_nil
        | exact fun t ht ↦ List.mem_singleton.mp ht ▸ trivial
  | escape read =>
    rw [lexStep] at h
    split at h
    · cases h
      exact fun t ht ↦ absurd ht List.not_mem_nil
    · obtain ⟨w, -, h⟩ := Option.map_eq_some_iff.mp h
      cases h
      exact fun t ht ↦ absurd ht List.not_mem_nil
  | unicode read digits value =>
    obtain ⟨d, -, h⟩ := Option.map_eq_some_iff.mp h
    split at h
    · cases h
      exact fun t ht ↦ absurd ht List.not_mem_nil
    · cases h
      exact fun t ht ↦ absurd ht List.not_mem_nil

theorem allNumbers_lexFrom {text : JsString} {lexeme : Lexeme} {tokens : List Token}
    (h : lexFrom lexeme text = some tokens) : ∀ t ∈ tokens, t.AllNumbers IsRounded := by
  induction text generalizing lexeme tokens with
  | nil =>
    cases lexeme with
    | none =>
      cases h
      exact fun t ht ↦ absurd ht List.not_mem_nil
    | word read =>
      obtain ⟨value, hvalue, rfl⟩ := Option.map_eq_some_iff.mp h
      exact fun t ht ↦ List.mem_singleton.mp ht ▸ allNumbers_scalarOf hvalue
    | string | escape | unicode => cases h
  | cons u text ih =>
    rw [lexFrom] at h
    simp only [Option.bind_eq_bind, Option.bind_eq_some_iff] at h
    obtain ⟨⟨tokens', lexeme'⟩, hstep, rest, hrest, h⟩ := h
    cases h
    intro t ht
    rcases List.mem_append.mp ht with ht | ht
    · exact allNumbers_lexStep hstep t ht
    · exact ih hrest t ht

/-! ## Numbers of a value under construction -/

def Frame.AllNumbers (P : JsNumber → Prop) : Frame → Prop
  | .array items => ∀ v ∈ items, v.AllNumbers P
  | .object members _ => ∀ m ∈ members, m.2.AllNumbers P

def Expect.AllNumbers (P : JsNumber → Prop) : Expect → Prop
  | .value stack | .firstItem stack => ∀ f ∈ stack, f.AllNumbers P
  | .name stack members | .colon stack members _ =>
    (∀ f ∈ stack, f.AllNumbers P) ∧ ∀ m ∈ members, m.2.AllNumbers P
  | .close stack v => (∀ f ∈ stack, f.AllNumbers P) ∧ v.AllNumbers P

theorem allNumbers_beginValue {stack : List Frame} {t : Token} {expect : Expect}
    (hstack : ∀ f ∈ stack, f.AllNumbers P) (ht : t.AllNumbers P)
    (h : beginValue stack t = some expect) : expect.AllNumbers P := by
  cases t with
  | scalar value =>
    cases h
    exact ⟨hstack, ht⟩
  | string value =>
    cases h
    exact ⟨hstack, allNumbers_string⟩
  | lbracket =>
    cases h
    exact hstack
  | lbrace =>
    cases h
    exact ⟨hstack, fun m hm ↦ absurd hm List.not_mem_nil⟩
  | rbrace | rbracket | comma | colon => cases h

/-- **Step lemma.** -/
theorem allNumbers_parseStep {expect expect' : Expect} {t : Token} (he : expect.AllNumbers P)
    (ht : t.AllNumbers P) (h : parseStep expect t = some expect') : expect'.AllNumbers P := by
  unfold parseStep at h
  split at h
  · exact allNumbers_beginValue he ht h
  · cases h
    exact ⟨he, allNumbers_array.mpr fun v hv ↦ absurd hv List.not_mem_nil⟩
  · refine allNumbers_beginValue (List.forall_mem_cons.mpr ⟨?_, he⟩) ht h
    exact fun v hv ↦ absurd hv List.not_mem_nil
  · cases h
    exact he
  · cases h
    exact ⟨he.1, allNumbers_object.mpr he.2⟩
  · cases h
  · cases h
    exact List.forall_mem_cons.mpr ⟨he.2, he.1⟩
  · cases h
  · cases h
    obtain ⟨hframes, hvalue⟩ := he
    obtain ⟨hitems, hstack⟩ := List.forall_mem_cons.mp hframes
    exact List.forall_mem_cons.mpr ⟨List.forall_mem_cons.mpr ⟨hvalue, hitems⟩, hstack⟩
  · cases h
    obtain ⟨hframes, hvalue⟩ := he
    obtain ⟨hitems, hstack⟩ := List.forall_mem_cons.mp hframes
    refine ⟨hstack, allNumbers_array.mpr fun w hw ↦ ?_⟩
    exact List.forall_mem_cons.mpr ⟨hvalue, hitems⟩ w (List.mem_reverse.mp hw)
  · cases h
    obtain ⟨hframes, hvalue⟩ := he
    obtain ⟨hmembers, hstack⟩ := List.forall_mem_cons.mp hframes
    exact ⟨hstack, List.forall_mem_cons.mpr ⟨hvalue, hmembers⟩⟩
  · rename_i members name stack value
    cases h
    obtain ⟨hframes, hvalue⟩ := he
    obtain ⟨hmembers, hstack⟩ := List.forall_mem_cons.mp hframes
    have hall : ∀ m ∈ (name, value) :: members, m.2.AllNumbers P :=
      List.forall_mem_cons.mpr ⟨hvalue, hmembers⟩
    exact ⟨hstack, allNumbers_object.mpr fun m hm ↦ hall m (List.mem_reverse.mp hm)⟩
  · cases h

theorem allNumbers_parseFrom {expect : Expect} {tokens : List Token} (he : expect.AllNumbers P)
    (ht : ∀ t ∈ tokens, t.AllNumbers P) (h : parseFrom expect tokens = some v) :
    v.AllNumbers P := by
  induction tokens generalizing expect with
  | nil =>
    unfold parseFrom at h
    split at h
    · cases h
      exact he.2
    · cases h
    · rename_i heq
      cases heq
  | cons t tokens ih =>
    have hstep : (parseStep expect t).bind (fun expect ↦ parseFrom expect tokens) = some v := by
      rw [← h, parseFrom.eq_def]
      cases expect with
      | close stack value => cases stack <;> rfl
      | value | firstItem | name | colon => rfl
    obtain ⟨expect', hexpect', hrest⟩ := Option.bind_eq_some_iff.mp hstep
    exact ih (allNumbers_parseStep he (ht t List.mem_cons_self) hexpect')
      (fun t' ht' ↦ ht t' (List.mem_cons_of_mem _ ht')) hrest

/-- **The numbers of a parsed text are rounded.** -/
theorem allNumbers_parse {text : JsString} (h : parse text = some v) : v.AllNumbers IsRounded := by
  obtain ⟨tokens, hlex, hparse⟩ := Option.bind_eq_some_iff.mp h
  refine allNumbers_parseFrom ?_ (allNumbers_lexFrom hlex) hparse
  exact fun f hf ↦ absurd hf List.not_mem_nil

end Json
