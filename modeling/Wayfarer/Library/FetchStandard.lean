import Wayfarer.Library.Cut

/-!
# Headers in the Fetch standard

What the standard says of a header that a page gives to `fetch`, on values as the byte strings they
are: which a page may not set, and which make the browser ask the server first. The definitions
follow the standard's algorithms step by step; the lemmas say of each what it accepts.
-/

set_option autoImplicit false

namespace Library.FetchStandard

/-! ## Bytes -/

/-- A letter in lower case. -/
def byteLower (c : CodeUnit) : CodeUnit :=
  if 0x41 ≤ c.toNat ∧ c.toNat ≤ 0x5A then c + 0x20 else c

/-- A byte-case-insensitive match. -/
def sameName (a b : Text) : Bool :=
  a.map byteLower = b.map byteLower

def isTabOrSpace (c : CodeUnit) : Bool :=
  c = 0x09 || c = 0x20

def isHttpWhite (c : CodeUnit) : Bool :=
  c = 0x09 || c = 0x0A || c = 0x0D || c = 0x20

/-- A byte of a token. -/
def isTokenByte (c : CodeUnit) : Bool :=
  (0x30 ≤ c.toNat && c.toNat ≤ 0x39) || (0x41 ≤ c.toNat && c.toNat ≤ 0x5A) ||
    (0x61 ≤ c.toNat && c.toNat ≤ 0x7A) || (units "!#$%&'*+-.^_`|~").contains c

/-- A text without the characters of a kind at its end, and at both ends. -/
def stripEnd (p : CodeUnit → Bool) (t : Text) : Text :=
  (t.reverse.dropWhile p).reverse

def strip (p : CodeUnit → Bool) (t : Text) : Text :=
  stripEnd p (t.dropWhile p)

/-- A value as a header holds it. -/
def normalize (value : Text) : Text :=
  strip isHttpWhite value

/-! ## Headers a page may not set -/

/-- The forbidden names. -/
def forbiddenNames : List Text :=
  ["Accept-Charset", "Accept-Encoding", "Access-Control-Request-Headers",
    "Access-Control-Request-Method", "Connection", "Content-Length", "Cookie", "Cookie2", "Date",
    "DNT", "Expect", "Host", "Keep-Alive", "Origin", "Referer", "Set-Cookie", "TE", "Trailer",
    "Transfer-Encoding", "Upgrade", "Via"].map units

/-- The names whose value is a list of methods. -/
def overrideNames : List Text :=
  ["X-HTTP-Method", "X-HTTP-Method-Override", "X-Method-Override"].map units

def isForbiddenMethod (method : Text) : Bool :=
  (["CONNECT", "TRACE", "TRACK"].map units).any (sameName method)

/-- Where in a list of values a reader stands: a comma in a quoted string ends no value. -/
inductive ListMode
  | plain
  | quoted
  | escaped

/-- The values of a list, from a place in it on, with what the value there holds already. -/
def valuesFrom (mode : ListMode) (held : Text) : Text → List Text
  | [] => [strip isTabOrSpace held]
  | c :: rest =>
      match mode with
      | .escaped => valuesFrom .quoted (held ++ [c]) rest
      | .quoted =>
          valuesFrom (if c = 0x5C then .escaped else if c = 0x22 then .plain else .quoted)
            (held ++ [c]) rest
      | .plain =>
          if c = 0x2C then strip isTabOrSpace held :: valuesFrom .plain [] rest
          else valuesFrom (if c = 0x22 then .quoted else .plain) (held ++ [c]) rest

/-- A value got, decoded and split. -/
def valuesOf (value : Text) : List Text :=
  valuesFrom .plain [] value

/-- A forbidden request-header. -/
def isForbidden (name value : Text) : Bool :=
  forbiddenNames.any (sameName name) || (units "proxy-").isPrefixOf (name.map byteLower) ||
    (units "sec-").isPrefixOf (name.map byteLower) ||
    (overrideNames.any (sameName name) && (valuesOf value).any isForbiddenMethod)

/-- What a page's `Headers` keep of a list of headers. -/
def guarded (headers : List (Text × Text)) : List (Text × Text) :=
  (headers.map fun header => (header.1, normalize header.2)).filter fun header =>
    !isForbidden header.1 header.2

/-! ## Headers that need a preflight -/

/-- A CORS-unsafe request-header byte. -/
def isUnsafe (c : CodeUnit) : Bool :=
  (c.toNat < 0x20 && c ≠ 0x09) ||
    ([0x22, 0x28, 0x29, 0x3A, 0x3C, 0x3E, 0x3F, 0x40, 0x5B, 0x5C, 0x5D, 0x7B, 0x7D, 0x7F] :
      Text).contains c

/-- A byte that a list of languages may hold. -/
def isLanguageByte (c : CodeUnit) : Bool :=
  (0x30 ≤ c.toNat && c.toNat ≤ 0x39) || (0x41 ≤ c.toNat && c.toNat ≤ 0x5A) ||
    (0x61 ≤ c.toNat && c.toNat ≤ 0x7A) ||
    ([0x20, 0x2A, 0x2C, 0x2D, 0x2E, 0x3B, 0x3D] : Text).contains c

/-- The essence of the MIME type that a text parses to. -/
def mimeEssence (input : Text) : Option Text :=
  let input := strip isHttpWhite input
  let type := input.takeWhile fun c => c ≠ 0x2F
  match input.dropWhile fun c => c ≠ 0x2F with
  | [] => none
  | _ :: rest =>
      let subtype := stripEnd isHttpWhite (rest.takeWhile fun c => c ≠ 0x3B)
      if type ≠ [] ∧ type.all isTokenByte ∧ subtype ≠ [] ∧ subtype.all isTokenByte then
        some (type.map byteLower ++ 0x2F :: subtype.map byteLower)
      else none

/-- The types of a body that a form can send. -/
def formTypes : List Text :=
  ["application/x-www-form-urlencoded", "multipart/form-data", "text/plain"].map units

def isDigit (c : CodeUnit) : Bool :=
  0x30 ≤ c.toNat && c.toNat ≤ 0x39

/-- The number that decimal digits write. -/
def decimalValue (digits : Text) : Nat :=
  digits.foldl (fun n c => 10 * n + (c.toNat - 0x30)) 0

/-- The number of some digits, or nothing where there are none. -/
def numberOf (digits : Text) : Option Nat :=
  if digits = [] then none else some (decimalValue digits)

/-- A single range, without white space: its start and its end. -/
def singleRange (value : Text) : Option (Option Nat × Option Nat) :=
  if (units "bytes").isPrefixOf value then
    match value.drop 5 with
    | equals :: range =>
        let start := numberOf (range.takeWhile isDigit)
        match range.dropWhile isDigit with
        | dash :: rest =>
            let stop := numberOf (rest.takeWhile isDigit)
            if equals = 0x3D ∧ dash = 0x2D ∧ rest.dropWhile isDigit = [] ∧
                ¬ (start = none ∧ stop = none) ∧ ∀ m ∈ start, ∀ n ∈ stop, m ≤ n then
              some (start, stop)
            else none
        | [] => none
    | [] => none
  else none

/-- A CORS-safelisted request-header. -/
def isSafelisted (name value : Text) : Bool :=
  value.length ≤ 128 &&
    let lower := name.map byteLower
    if lower = units "accept" then value.all fun c => !isUnsafe c
    else if lower = units "accept-language" ∨ lower = units "content-language" then
      value.all isLanguageByte
    else if lower = units "content-type" then
      (value.all fun c => !isUnsafe c) && (mimeEssence value).any formTypes.contains
    else if lower = units "range" then
      (singleRange value).any fun range => range.1.isSome
    else false

/-- The names of the headers that need a preflight. -/
def preflightNames (headers : List (Text × Text)) : List Text :=
  let safe := headers.filter fun header => isSafelisted header.1 header.2
  (headers.filter fun header => !isSafelisted header.1 header.2).map Prod.fst ++
    if 1024 < (safe.map fun header => header.2.length).sum then safe.map Prod.fst else []

/-- A method as a request holds it. -/
def normalizeMethod (method : Text) : Text :=
  ((["DELETE", "GET", "HEAD", "OPTIONS", "POST", "PUT"].map units).find? (sameName method)).getD
    method

def isSafelistedMethod (method : Text) : Bool :=
  (["GET", "HEAD", "POST"].map units).contains (normalizeMethod method)

/-- Whether a browser asks the server first. -/
def sendsPreflight (sameOrigin : Bool) (method : Text) (headers : List (Text × Text)) : Bool :=
  !sameOrigin && (!isSafelistedMethod method || preflightNames headers ≠ [])

/-! ## White space at the ends -/

section Strip

variable {p : CodeUnit → Bool}

theorem stripEnd_append {x w : Text} (hw : ∀ c ∈ w, p c = true)
    (hlast : ∀ c ∈ x.getLast?, p c = false) : stripEnd p (x ++ w) = x := by
  have hback : x.reverse.dropWhile p = x.reverse := by
    cases hx : x.reverse with
    | nil => rfl
    | cons c rest =>
        have hc : p c = false := hlast c (by rw [← List.head?_reverse, hx]; rfl)
        exact List.dropWhile_cons_of_neg (by rw [hc]; decide)
  rw [stripEnd, List.reverse_append,
    List.dropWhile_append_of_pos fun c hc => hw c (List.mem_reverse.mp hc), hback,
    List.reverse_reverse]

theorem strip_append {w x w' : Text} (hw : ∀ c ∈ w, p c = true) (hw' : ∀ c ∈ w', p c = true)
    (hne : x ≠ []) (hends : ∀ c ∈ x, c ∈ x.head? ∨ c ∈ x.getLast? → p c = false) :
    strip p (w ++ x ++ w') = x := by
  obtain ⟨c, rest, rfl⟩ := List.exists_cons_of_ne_nil hne
  have hfront : ((c :: rest) ++ w').dropWhile p = (c :: rest) ++ w' := by
    have hc : p c = false := hends c List.mem_cons_self (.inl rfl)
    rw [List.cons_append, List.dropWhile_cons_of_neg (by rw [hc]; decide)]
  rw [strip, List.append_assoc, List.dropWhile_append_of_pos hw, hfront]
  exact stripEnd_append hw' fun d hd => hends d (List.mem_of_getLast? hd) (.inr hd)

theorem exists_append_stripEnd (p : CodeUnit → Bool) (t : Text) :
    ∃ w, (∀ c ∈ w, p c = true) ∧ t = stripEnd p t ++ w := by
  refine ⟨(t.reverse.takeWhile p).reverse, ?_, ?_⟩
  · intro c hc
    exact List.mem_takeWhile_imp (List.mem_reverse.mp hc)
  · rw [stripEnd, ← List.reverse_append, List.takeWhile_append_dropWhile, List.reverse_reverse]

/-- A text is its stripped self between two runs of what was stripped. -/
theorem exists_append_strip (p : CodeUnit → Bool) (t : Text) :
    ∃ w w', (∀ c ∈ w, p c = true) ∧ (∀ c ∈ w', p c = true) ∧ t = w ++ strip p t ++ w' := by
  obtain ⟨w', hw', hback⟩ := exists_append_stripEnd p (t.dropWhile p)
  refine ⟨t.takeWhile p, w', fun c hc => List.mem_takeWhile_imp hc, hw', ?_⟩
  rw [strip, List.append_assoc, ← hback, List.takeWhile_append_dropWhile]

/-- Nothing of the kind is left at the ends. -/
theorem ends_strip (p : CodeUnit → Bool) (t : Text) :
    ∀ c ∈ strip p t, c ∈ (strip p t).head? ∨ c ∈ (strip p t).getLast? → p c = false := by
  rintro c - (hc | hc)
  · obtain ⟨w, -, hfront⟩ := exists_append_stripEnd p (t.dropWhile p)
    have hhead := List.head?_dropWhile_not p t
    rw [hfront, ← strip] at hhead
    cases hstrip : strip p t with
    | nil =>
        rw [hstrip] at hc
        cases hc
    | cons d rest =>
        rw [hstrip] at hc hhead
        cases hc
        simpa using hhead
  · have hhead := List.head?_dropWhile_not p (t.dropWhile p).reverse
    rw [strip, stripEnd, List.getLast?_reverse] at hc
    rw [hc] at hhead
    exact hhead

theorem strip_strip (p : CodeUnit → Bool) (t : Text) : strip p (strip p t) = strip p t := by
  by_cases hnil : strip p t = []
  · rw [hnil]
    rfl
  · have hnone : ∀ c ∈ ([] : Text), p c = true := fun c hc => absurd hc List.not_mem_nil
    have h := strip_append hnone hnone hnil (ends_strip p t)
    rwa [List.nil_append, List.append_nil] at h

theorem length_strip_le (p : CodeUnit → Bool) (t : Text) : (strip p t).length ≤ t.length := by
  obtain ⟨w, w', -, -, ht⟩ := exists_append_strip p t
  conv_rhs => rw [ht, List.length_append, List.length_append]
  omega

end Strip

/-! ## What the algorithms accept -/

/-- A character between two values of a list. -/
def isBetween (c : CodeUnit) : Bool :=
  c = 0x2C || isTabOrSpace c

/-- A value stands in its list with nothing beside it but what comes between values. -/
theorem exists_of_mem_valuesFrom {mode : ListMode} {held rest e : Text}
    (h : e ∈ valuesFrom mode held rest) :
    ∃ a b, held ++ rest = a ++ e ++ b ∧ (∀ c ∈ a.getLast?, isBetween c = true) ∧
      ∀ c ∈ b.head?, isBetween c = true := by
  -- Between two values stand a comma and white space, and nothing else.
  have hspace : ∀ {c : CodeUnit}, isTabOrSpace c = true → isBetween c = true := by
    intro c hc
    rw [isBetween, hc, Bool.or_true]
  have hstripped : ∀ held : Text, ∃ a b, held = a ++ strip isTabOrSpace held ++ b ∧
      (∀ c ∈ a.getLast?, isBetween c = true) ∧ ∀ c ∈ b, isBetween c = true := by
    intro held
    obtain ⟨a, b, ha, hb, hheld⟩ := exists_append_strip isTabOrSpace held
    exact ⟨a, b, hheld, fun c hc => hspace (ha c (List.mem_of_getLast? hc)),
      fun c hc => hspace (hb c hc)⟩
  fun_induction valuesFrom mode held rest with
  | case1 mode held =>
      rw [List.mem_singleton.mp h]
      obtain ⟨a, b, hheld, ha, hb⟩ := hstripped held
      exact ⟨a, b, by rw [List.append_nil, ← hheld], ha, fun c hc => hb c (List.mem_of_head? hc)⟩
  | case2 held c rest ih =>
      obtain ⟨a, b, hsplit, ha, hb⟩ := ih h
      exact ⟨a, b, by rw [← hsplit, List.append_assoc]; rfl, ha, hb⟩
  | case3 held c rest ih =>
      obtain ⟨a, b, hsplit, ha, hb⟩ := ih h
      exact ⟨a, b, by rw [← hsplit, List.append_assoc]; rfl, ha, hb⟩
  | case4 held rest ih =>
      rcases List.mem_cons.mp h with rfl | h
      · obtain ⟨a, b, hheld, ha, hb⟩ := hstripped held
        refine ⟨a, b ++ 0x2C :: rest, ?_, ha, ?_⟩
        · rw [← List.append_assoc, ← hheld]
        · intro c hc
          cases b with
          | nil =>
              cases hc
              rfl
          | cons d b => exact hb c (by cases hc; exact List.mem_cons_self)
      · obtain ⟨a, b, hsplit, ha, hb⟩ := ih h
        -- The value is a later one: what is before it ends with the comma, or with what comes after
        -- that.
        refine ⟨held ++ 0x2C :: a, b, ?_, ?_, hb⟩
        · rw [List.nil_append] at hsplit
          rw [hsplit]
          simp only [List.append_assoc, List.cons_append]
        · intro c hc
          cases ha' : a.getLast? with
          | none =>
              rw [List.getLast?_eq_none_iff.mp ha'] at hc
              rw [List.getLast?_concat] at hc
              cases hc
              rfl
          | some d =>
              rw [List.getLast?_append, List.getLast?_cons, ha'] at hc
              cases hc
              exact ha d ha'
  | case5 held c rest hcomma ih =>
      obtain ⟨a, b, hsplit, ha, hb⟩ := ih h
      exact ⟨a, b, by rw [← hsplit, List.append_assoc]; rfl, ha, hb⟩

/-- No token holds white space, a slash or a semicolon. -/
theorem plain_of_isTokenByte {c : CodeUnit} (h : isTokenByte c = true) :
    isHttpWhite c = false ∧ c ≠ 0x2F ∧ c ≠ 0x3B := by
  have hplain : isTokenByte 0x09 = false ∧ isTokenByte 0x0A = false ∧ isTokenByte 0x0D = false ∧
      isTokenByte 0x20 = false ∧ isTokenByte 0x2F = false ∧ isTokenByte 0x3B = false := by decide
  obtain ⟨h9, hA, hD, h20, h2F, h3B⟩ := hplain
  have hne : ∀ d, isTokenByte d = false → c ≠ d := by
    rintro d hd rfl
    rw [h] at hd
    cases hd
  refine ⟨?_, hne _ h2F, hne _ h3B⟩
  rw [isHttpWhite, decide_eq_false (hne _ h9), decide_eq_false (hne _ hA),
    decide_eq_false (hne _ hD), decide_eq_false (hne _ h20)]
  rfl

theorem takeWhile_append_cons {q : CodeUnit → Bool} {a : Text} {c : CodeUnit} (rest : Text)
    (ha : ∀ d ∈ a, q d = true) (hc : q c = false) :
    (a ++ c :: rest).takeWhile q = a ∧ (a ++ c :: rest).dropWhile q = c :: rest := by
  have hc' : ¬ q c = true := by
    rw [hc]
    decide
  rw [List.takeWhile_append_of_pos ha, List.takeWhile_cons_of_neg hc', List.append_nil,
    List.dropWhile_append_of_pos ha, List.dropWhile_cons_of_neg hc']
  exact ⟨rfl, rfl⟩

/-- A type and a subtype with white space around them and nothing else before a semicolon. -/
structure NamesType (front type subtype back : Text) : Prop where
  front : ∀ c ∈ front, isHttpWhite c = true
  type : type ≠ [] ∧ ∀ c ∈ type, isTokenByte c = true
  subtype : subtype ≠ [] ∧ ∀ c ∈ subtype, isTokenByte c = true
  back : ∀ c ∈ back, isHttpWhite c = true

theorem exists_stripEnd_append_cons {p : CodeUnit → Bool} {c : CodeUnit} (hc : p c = false)
    (y t : Text) : ∃ z, stripEnd p (y ++ c :: t) = y ++ c :: z := by
  have hc' : ¬ p c = true := by
    rw [hc]
    decide
  have hreverse : (y ++ c :: t).reverse = t.reverse ++ c :: y.reverse := by
    rw [List.reverse_append, List.reverse_cons, List.append_assoc, List.singleton_append]
  rw [stripEnd, hreverse, List.dropWhile_append]
  split_ifs
  · refine ⟨[], ?_⟩
    rw [List.dropWhile_cons_of_neg hc', List.reverse_cons, List.reverse_reverse]
  · refine ⟨(t.reverse.dropWhile p).reverse, ?_⟩
    rw [List.reverse_append, List.reverse_cons, List.reverse_reverse, List.append_assoc,
      List.singleton_append]

/-- What is read of a MIME type stands before the first semicolon. -/
theorem mimeEssence_eq_some_iff {value e : Text} :
    mimeEssence value = some e ↔ ∃ front type subtype back,
      NamesType front type subtype back ∧ e = type.map byteLower ++ 0x2F :: subtype.map byteLower ∧
      value.takeWhile (fun c => c ≠ 0x3B) = front ++ (type ++ 0x2F :: subtype) ++ back := by
  have hbefore : ∀ {w : Text}, (∀ c ∈ w, isHttpWhite c = true) →
      ∀ c ∈ w, decide (c ≠ 0x3B) = true := by
    intro w hw c hc
    rw [decide_eq_true_eq]
    rintro rfl
    exact absurd (hw _ hc) (by decide)
  have htoken : ∀ {w : Text}, (∀ c ∈ w, isTokenByte c = true) →
      ∀ c ∈ w, decide (c ≠ 0x3B) = true :=
    fun hw c hc => decide_eq_true (plain_of_isTokenByte (hw c hc)).2.2
  constructor
  · intro h
    obtain ⟨front, back, hfront, hback, hvalue⟩ := exists_append_strip isHttpWhite value
    rw [mimeEssence] at h
    have hslash := List.takeWhile_append_dropWhile
      (p := fun c => decide (c ≠ 0x2F)) (l := strip isHttpWhite value)
    have hhead := List.head?_dropWhile_not (fun c => decide (c ≠ 0x2F)) (strip isHttpWhite value)
    cases hrest : (strip isHttpWhite value).dropWhile fun c => decide (c ≠ 0x2F) with
    | nil =>
        rw [hrest] at h
        cases h
    | cons slash rest =>
        simp only [hrest] at h hslash hhead
        split_ifs at h with htokens
        cases h
        have hslash' : slash = 0x2F := by simpa using hhead
        subst hslash'
        generalize htype :
          (strip isHttpWhite value).takeWhile (fun c => decide (c ≠ 0x2F)) = type at *
        obtain ⟨after, hafter, hsubtype⟩ :=
          exists_append_stripEnd isHttpWhite (rest.takeWhile fun c => decide (c ≠ 0x3B))
        generalize hname : stripEnd isHttpWhite (rest.takeWhile fun c => decide (c ≠ 0x3B)) =
          subtype at *
        -- what stands after the subtype and before the semicolon is white, of
        -- the list or of its end
        have hlast : ∃ w, (∀ c ∈ w, isHttpWhite c = true) ∧
            (rest ++ back).takeWhile (fun c => decide (c ≠ 0x3B)) = subtype ++ w := by
          rw [List.takeWhile_append]
          split_ifs with hall
          · refine ⟨after ++ back, ?_, ?_⟩
            · intro c hc
              rcases List.mem_append.mp hc with hc | hc
              · exact hafter c hc
              · exact hback c hc
            · have hrest' : rest = subtype ++ after := by
                rw [← hsubtype]
                exact ((List.takeWhile_prefix _).eq_of_length hall).symm
              rw [List.takeWhile_eq_self_iff.mpr (hbefore hback), hrest', List.append_assoc]
          · exact ⟨after, hafter, hsubtype⟩
        obtain ⟨w, hw, hlast⟩ := hlast
        refine ⟨front, type, subtype, w, ?_, rfl, ?_⟩
        · exact
            { front := hfront
              type := ⟨htokens.1, List.all_eq_true.mp htokens.2.1⟩
              subtype := ⟨htokens.2.2.1, List.all_eq_true.mp htokens.2.2.2⟩
              back := hw }
        · rw [hvalue, ← hslash]
          have hsplit : front ++ (type ++ 0x2F :: rest) ++ back =
              front ++ (type ++ ([0x2F] ++ (rest ++ back))) := by
            simp only [List.append_assoc, List.cons_append, List.nil_append]
          rw [hsplit, List.takeWhile_append_of_pos (hbefore hfront),
            List.takeWhile_append_of_pos (htoken (List.all_eq_true.mp htokens.2.1)),
            List.takeWhile_append_of_pos (by decide), hlast]
          simp only [List.append_assoc, List.cons_append, List.nil_append]
  · rintro ⟨front, type, subtype, back, hnames, rfl, hvalue⟩
    obtain ⟨htype, htypeTokens⟩ := hnames.type
    obtain ⟨hsubtype, hsubtypeTokens⟩ := hnames.subtype
    have hsplit := List.takeWhile_append_dropWhile (p := fun c => decide (c ≠ 0x3B)) (l := value)
    rw [hvalue] at hsplit
    have hfirst : ∀ u, (type ++ 0x2F :: (subtype ++ u)).dropWhile isHttpWhite =
        type ++ 0x2F :: (subtype ++ u) := by
      intro u
      obtain ⟨c, others, rfl⟩ := List.exists_cons_of_ne_nil htype
      have hc := (plain_of_isTokenByte (htypeTokens c List.mem_cons_self)).1
      rw [List.cons_append, List.dropWhile_cons_of_neg (by rw [hc]; decide)]
    have hlastToken : ∀ c ∈ (type ++ 0x2F :: subtype).getLast?, isHttpWhite c = false := by
      intro c hc
      rw [List.getLast?_append_of_ne_nil _ (List.cons_ne_nil _ _),
        List.getLast?_cons_of_ne_nil hsubtype] at hc
      exact (plain_of_isTokenByte (hsubtypeTokens c (List.mem_of_getLast? hc))).1
    have hstripped : ∃ u, strip isHttpWhite value = type ++ 0x2F :: (subtype ++ u) ∧
        ∀ c ∈ u.takeWhile (fun c => decide (c ≠ 0x3B)), isHttpWhite c = true := by
      have hhead := List.head?_dropWhile_not (fun c => decide (c ≠ 0x3B)) value
      rw [← hsplit, strip, List.append_assoc, List.append_assoc,
        List.dropWhile_append_of_pos hnames.front]
      cases htail : value.dropWhile fun c => decide (c ≠ 0x3B) with
      | nil =>
          refine ⟨[], ?_, fun c hc => absurd hc List.not_mem_nil⟩
          rw [List.append_nil, List.append_nil, List.append_assoc, List.cons_append, hfirst]
          rw [← List.cons_append, ← List.append_assoc]
          exact stripEnd_append hnames.back hlastToken
      | cons semicolon tail =>
          rw [htail] at hhead
          have hsemicolon : semicolon = 0x3B := by simpa using hhead
          subst hsemicolon
          obtain ⟨z, hz⟩ := exists_stripEnd_append_cons (p := isHttpWhite) (c := 0x3B) (by decide)
            (type ++ 0x2F :: (subtype ++ back)) tail
          refine ⟨back ++ 0x3B :: z, ?_, ?_⟩
          · rw [List.append_assoc, List.cons_append, hfirst]
            have hassoc : type ++ 0x2F :: (subtype ++ (back ++ 0x3B :: tail)) =
                type ++ 0x2F :: (subtype ++ back) ++ 0x3B :: tail := by
              simp only [List.append_assoc, List.cons_append]
            rw [hassoc, hz]
            simp only [List.append_assoc, List.cons_append]
          · rw [(takeWhile_append_cons _ (hbefore hnames.back) (by decide)).1]
            exact hnames.back
    obtain ⟨u, hu, hwhite⟩ := hstripped
    have hnoSlash : ∀ c ∈ type, decide (c ≠ 0x2F) = true :=
      fun c hc => decide_eq_true (plain_of_isTokenByte (htypeTokens c hc)).2.1
    have hcut := takeWhile_append_cons (c := 0x2F) (subtype ++ u) hnoSlash (by decide)
    have hname : stripEnd isHttpWhite ((subtype ++ u).takeWhile fun c => decide (c ≠ 0x3B)) =
        subtype := by
      rw [List.takeWhile_append_of_pos (htoken hsubtypeTokens)]
      apply stripEnd_append hwhite
      intro c hc
      exact (plain_of_isTokenByte (hsubtypeTokens c (List.mem_of_getLast? hc))).1
    rw [mimeEssence, hu, hcut.1, hcut.2]
    dsimp only
    rw [hname, if_pos ⟨htype, List.all_eq_true.mpr htypeTokens, hsubtype,
      List.all_eq_true.mpr hsubtypeTokens⟩]

/-- What a range that is safelisted looks like. -/
theorem singleRange_isSome_iff {value : Text} :
    (singleRange value).any (fun range => range.1.isSome) = true ↔
      ∃ first last, value = units "bytes=" ++ (first ++ 0x2D :: last) ∧ first ≠ [] ∧
        (∀ c ∈ first, isDigit c = true) ∧ (∀ c ∈ last, isDigit c = true) ∧
        (last = [] ∨ decimalValue first ≤ decimalValue last) := by
  constructor
  · intro h
    rw [singleRange] at h
    split_ifs at h with hbytes
    · obtain ⟨after, hafter⟩ := List.isPrefixOf_iff_prefix.mp hbytes
      have hdrop : value.drop 5 = after := by
        rw [← hafter]
        rfl
      rw [hdrop] at h
      cases after with
      | nil => cases h
      | cons equals range =>
          dsimp only at h
          have hsplit := List.takeWhile_append_dropWhile (p := isDigit) (l := range)
          -- Behind the first number stands the dash, and behind that the second number alone.
          cases hdash : range.dropWhile isDigit with
          | nil =>
              rw [hdash] at h
              cases h
          | cons dash rest =>
              rw [hdash] at h hsplit
              dsimp only at h
              split_ifs at h with hparts
              · obtain ⟨rfl, rfl, hend, -, horder⟩ := hparts
                have hlast := List.takeWhile_append_dropWhile (p := isDigit) (l := rest)
                rw [hend, List.append_nil] at hlast
                have hne : range.takeWhile isDigit ≠ [] := by
                  intro hnil
                  rw [hnil] at h
                  cases h
                refine ⟨range.takeWhile isDigit, rest, ?_, hne,
                  fun c hc => List.mem_takeWhile_imp hc, ?_, ?_⟩
                · rw [hsplit, ← hafter]
                  rfl
                · rw [← hlast]
                  exact fun c hc => List.mem_takeWhile_imp hc
                · by_cases hnil : rest = []
                  · exact .inl hnil
                  · rw [hlast] at horder
                    refine .inr (horder _ ?_ _ ?_)
                    · exact if_neg hne
                    · exact if_neg hnil
              · cases h
    · cases h
  · -- Read from the front, such a value is cut at the same places.
    rintro ⟨first, last, rfl, hne, hfirst, hlast, horder⟩
    have hdigits := takeWhile_append_cons (c := 0x2D) last hfirst (by decide)
    have htake : last.takeWhile isDigit = last := List.takeWhile_eq_self_iff.mpr hlast
    have hrest : last.dropWhile isDigit = [] := List.dropWhile_eq_nil_iff.mpr hlast
    have hbytes : (units "bytes").isPrefixOf (units "bytes=" ++ (first ++ 0x2D :: last)) = true :=
      rfl
    have hdrop : (units "bytes=" ++ (first ++ 0x2D :: last)).drop 5 =
        0x3D :: (first ++ 0x2D :: last) := rfl
    have hstart : numberOf first = some (decimalValue first) := if_neg hne
    rw [singleRange, if_pos hbytes, hdrop]
    dsimp only
    rw [hdigits.1, hdigits.2]
    dsimp only
    rw [htake, hrest, hstart, if_pos]
    · rfl
    · refine ⟨rfl, rfl, rfl, fun h => (nomatch h.1), ?_⟩
      intro m hm n hn
      cases hm
      rcases horder with rfl | horder
      · cases hn
      · rw [numberOf] at hn
        split_ifs at hn
        · cases hn
        · cases hn
          exact horder

end Library.FetchStandard
