import Madlib.Lib.Regex

/-!
# Connection strings

`parseConnectionStr` takes `[username[/password]@][hostname][:port][/database]` apart with one
regular expression.  Separators and the backslash are escaped by a backslash inside the parts.
-/

namespace Madlib.Madpack

open Madlib.Lib.Regex

/-! ## Parsing -/

/-- The groups of the pattern. -/
inductive Group where
  | user
  | password
  | host
  | port
  | database
  deriving DecidableEq

/-- What `parseConnectionStr` returns. -/
structure ConnectionFields where
  user : Option (List Char)
  password : Option (List Char)
  host : Option (List Char)
  port : Option (List Char)
  database : Option (List Char)
  deriving DecidableEq

def isSeparator (c : Char) : Bool := c = '/' || c = '@' || c = ':' || c = '\\'

def escaped (c : Char) : Pattern Group := .seq (.char '\\') (.char c)

/-- `[^/@:\\]|\\/|\\@|\\:|\\\\` -/
def token : Pattern Group :=
  .alt (.cls fun c => !isSeparator c)
    (.alt (escaped '/') (.alt (escaped '@') (.alt (escaped ':') (escaped '\\'))))

def isDigitChar (c : Char) : Bool := '0' ≤ c && c ≤ '9'

/-- `(/(?P<password>..*))?` -/
def passwordPattern : Pattern Group := .opt (.seq (.char '/') (.group .password (.star token)))

/-- `(?P<user>..+)`, the password and `@` -/
def userPattern : Pattern Group :=
  .seq (.group .user (.plus token)) (.seq passwordPattern (.char '@'))

/-- A separator and a group. -/
def partPattern (separator : Char) (name : Group) (r : Pattern Group) : Pattern Group :=
  .opt (.seq (.char separator) (.group name (.plus r)))

def connectionPattern : Pattern Group :=
  .seq (.opt userPattern)
    (.seq (.opt (.group .host (.plus token)))
      (.seq (partPattern ':' .port (.cls isDigitChar)) (partPattern '/' .database token)))

/-- `\\(?P<char>[/@:\\])` -/
def escapePattern : Pattern Unit := .seq (.char '\\') (.group () (.cls isSeparator))

def unescape (string : Option (List Char)) : Option (List Char) :=
  string.map fun string =>
    sub escapePattern (fun captures => (captures ()).getD []) string.length string

/-- Nothing where there is no match, which has no groups to ask for. -/
def parseConnectionStr (connectionStr : List Char) : Option ConnectionFields :=
  (search connectionPattern connectionStr).map fun found =>
    { user := unescape (found.2 .user)
      password := unescape (found.2 .password)
      host := unescape (found.2 .host)
      port := found.2 .port
      database := unescape (found.2 .database) }

/-! ## Rendering -/

/-- The parts of a connection string: a password comes with a user, and a port is a number. -/
@[ext] structure ConnectionParts extends ConnectionFields where
  user_ne : ∀ name ∈ user, name ≠ []
  password_user : password.isSome → user.isSome
  host_ne : ∀ name ∈ host, name ≠ []
  port_ne : ∀ number ∈ port, number ≠ []
  port_digits : ∀ number ∈ port, ∀ c ∈ number, isDigitChar c = true
  database_ne : ∀ name ∈ database, name ≠ []

def escapeChar (c : Char) : List Char := if isSeparator c then ['\\', c] else [c]

def escape (string : List Char) : List Char := string.flatMap escapeChar

/-- A separator and what stands behind it, if there is any. -/
def partText (separator : Char) : Option (List Char) → List Char
  | none => []
  | some string => separator :: string

def userText (user password : Option (List Char)) : List Char :=
  match user with
  | none => []
  | some name => escape name ++ partText '/' (password.map escape) ++ ['@']

def ConnectionParts.render (parts : ConnectionParts) : List Char :=
  userText parts.user parts.password ++ ((parts.host.map escape).getD [] ++
    (partText ':' parts.port ++ partText '/' (parts.database.map escape)))

/-! ## Tokens -/

theorem readsUnits_token : ReadsUnits token escapeChar := by
  constructor
  · intro c
    unfold escapeChar
    split <;> exact List.cons_ne_nil _ _
  · intro β k c rest e
    by_cases hseparator : isSeparator c = true
    · have hcases : c = '/' ∨ c = '@' ∨ c = ':' ∨ c = '\\' := by
        simpa [isSeparator, or_assoc] using hseparator
      rcases hcases with rfl | rfl | rfl | rfl <;>
        simp [token, escaped, escapeChar, isSeparator, Pattern.char, run]
    · have hplain : c ≠ '\\' := by
        rintro rfl
        exact hseparator rfl
      simp [token, escaped, escapeChar, hseparator, hplain, Pattern.char, run]

/-- A text at whose start no token is read. -/
def Stops (text : List Char) : Prop := ∀ c ∈ text.head?, c = '/' ∨ c = '@' ∨ c = ':'

theorem stuck_token {text : List Char} (h : Stops text) : Stuck token text := by
  constructor
  intro β k e
  cases text with
  | nil => simp [token, escaped, Pattern.char, run]
  | cons c rest =>
      have hcases : c = '/' ∨ c = '@' ∨ c = ':' := h c rfl
      rcases hcases with rfl | rfl | rfl <;>
        simp [token, escaped, isSeparator, Pattern.char, run]

theorem readsUnits_digit : ReadsUnits (.cls isDigitChar : Pattern Group)
    fun c : { c // isDigitChar c = true } => [c.val] := by
  constructor
  · exact fun c => List.cons_ne_nil _ _
  · intro β k c rest e
    exact run_cls_cons c.property rest e

theorem isSeparator_of_digit {c : Char} (h : isDigitChar c = true) : isSeparator c = false := by
  by_contra hseparator
  rw [Bool.not_eq_false] at hseparator
  have hcases : c = '/' ∨ c = '@' ∨ c = ':' ∨ c = '\\' := by
    simpa [isSeparator, or_assoc] using hseparator
  rcases hcases with rfl | rfl | rfl | rfl <;> cases h

/-! ## Texts without a bare `@` -/

inductive NoAt : List Char → Prop
  | nil : NoAt []
  | token (c : Char) {rest : List Char} : NoAt rest → NoAt (escapeChar c ++ rest)
  | separator {c : Char} {rest : List Char} : c = '/' ∨ c = ':' → NoAt rest → NoAt (c :: rest)

theorem NoAt.escape_append {rest : List Char} (h : NoAt rest) (string : List Char) :
    NoAt (escape string ++ rest) := by
  induction string with
  | nil => exact h
  | cons c string ih =>
      rw [escape, List.flatMap_cons, List.append_assoc]
      exact .token c ih

theorem escapeChar_append_ne {c sep : Char} (h : sep = '/' ∨ sep = '@') (rest rest' : List Char) :
    escapeChar c ++ rest ≠ sep :: rest' := by
  intro heq
  unfold escapeChar at heq
  split at heq
  · rcases h with rfl | rfl <;> exact absurd (List.cons.inj heq).1 (by decide)
  · next hplain =>
      rw [(List.cons.inj heq).1] at hplain
      rcases h with rfl | rfl <;> exact hplain rfl

theorem NoAt.of_slash {text rest : List Char} (h : NoAt text) (heq : text = '/' :: rest) :
    NoAt rest := by
  cases h with
  | nil => cases heq
  | token c hrest => exact absurd heq (escapeChar_append_ne (.inl rfl) _ _)
  | separator hc hrest => exact (List.cons.inj heq).2 ▸ hrest

theorem NoAt.not_at {text rest : List Char} (h : NoAt text) : text ≠ '@' :: rest := by
  cases h with
  | nil => exact nofun
  | token c hrest => exact escapeChar_append_ne (.inr rfl) _ _
  | separator hc hrest =>
      intro heq
      have hat := (List.cons.inj heq).1
      rcases hc with rfl | rfl <;> exact absurd hat (by decide)

theorem staysIn_token : StaysIn token NoAt := by
  constructor
  intro β k hk p hp
  have ⟨text, e⟩ := p
  dsimp only at hp
  cases hp with
  | nil => exact (stuck_token (by simp [Stops])).run_none k e
  | token c hrest => exact (readsUnits_token.reads k c _ e).trans (hk _ hrest)
  | separator hc hrest =>
      apply (stuck_token _).run_none
      rintro _ ⟨⟩
      rcases hc with hc | hc
      · exact .inl hc
      · exact .inr (.inr hc)

/-- Without a bare `@` there is no user to be found. -/
theorem run_userPattern_none {β : Type} (k : Position Group → Option β) {p : Position Group}
    (h : NoAt p.1) : run userPattern k p = none := by
  have hslash : StaysIn (.char '/' : Pattern Group) NoAt := by
    apply StaysIn.cls
    intro c rest hc hslash
    rw [of_decide_eq_true hslash] at hc
    exact hc.of_slash rfl
  have hpassword : StaysIn passwordPattern NoAt := (hslash.seq staysIn_token.star.group).opt
  have hat : ∀ p : Position Group, NoAt p.1 → run (.char '@') k p = none := by
    intro p hp
    apply run_cls_of_head
    intro c hc
    rw [decide_eq_false_iff_not]
    rintro rfl
    have ⟨rest, hrest⟩ := List.head?_eq_some_iff.mp hc
    exact hp.not_at hrest
  exact staysIn_token.plus.group.run_none _ (hpassword.run_none _ hat) p h

/-! ## Reading a rendered string -/

def setGroup (name : Group) (found : Option (List Char)) (e : Captures Group) : Captures Group :=
  match found with
  | none => e
  | some text => Function.update e name (some text)

section Reading

variable {β : Type} {k : Position Group → Option β} {rest : List Char} {e : Captures Group} {b : β}

/-- A part behind a separator is found where it is written, and passed over where it is not. -/
theorem run_partPattern {α : Type} {separator : Char} {name : Group} {r : Pattern Group}
    {enc : α → List Char} (h : ReadsUnits r enc) (hstuck : Stuck r rest)
    (hother : separator ∉ rest.head?) (part : Option (List α)) (hne : ∀ units ∈ part, units ≠ [])
    (hk : k (rest, setGroup name (part.map fun units => units.flatMap enc) e) = some b) :
    run (partPattern separator name r) k
      (partText separator (part.map fun units => units.flatMap enc) ++ rest, e) = some b := by
  cases part with
  | none =>
      have hskip : run (.seq (.char separator) (.group name (.plus r))) k (rest, e) = none := by
        rw [run]
        apply run_cls_of_head
        intro c hc
        rw [decide_eq_false_iff_not]
        rintro rfl
        exact hother hc
      exact (run_opt_of_none hskip).trans hk
  | some units =>
      apply run_opt_of_some
      have hread := run_group_plus_units h hstuck (hne units rfl) hk
      rw [run, Option.map_some, partText, List.cons_append]
      exact (run_cls_cons (decide_eq_true rfl) _ e).trans hread

theorem run_hostPattern {host : Option (List Char)} (hstops : Stops rest)
    (hne : ∀ name ∈ host, name ≠ [])
    (hk : k (rest, setGroup .host (host.map escape) e) = some b) :
    run (.opt (.group .host (.plus token))) k ((host.map escape).getD [] ++ rest, e) = some b := by
  have hstuck := stuck_token hstops
  cases host with
  | none => exact (run_opt_of_none (hstuck.plus.group.run_none k e)).trans hk
  | some name => exact run_opt_of_some (run_group_plus_units readsUnits_token hstuck (hne name rfl) hk)

theorem run_passwordPattern {password : Option (List Char)}
    (hk : k ('@' :: rest, setGroup .password (password.map escape) e) = some b) :
    run passwordPattern k (partText '/' (password.map escape) ++ '@' :: rest, e) = some b := by
  have hstuck : Stuck token ('@' :: rest) := stuck_token (by simp [Stops])
  cases password with
  | none =>
      have hskip : run (.seq (.char '/') (.group .password (.star token))) k ('@' :: rest, e) =
          none := by
        rw [run]
        apply run_cls_of_head
        rintro _ ⟨⟩
        decide
      exact (run_opt_of_none hskip).trans hk
  | some word =>
      apply run_opt_of_some
      have hread := run_group_star_units readsUnits_token hstuck hk
      rw [run, Option.map_some, partText, List.cons_append]
      exact (run_cls_cons (decide_eq_true rfl) _ e).trans hread

/-- The user and the password are found when there is a user; else no text up to an `@` is taken
for one. -/
theorem run_userPattern {user password : Option (List Char)} (hne : ∀ name ∈ user, name ≠ [])
    (hpassword : password.isSome → user.isSome) (hnoAt : user = none → NoAt rest)
    (hk : k (rest, setGroup .password (password.map escape)
      (setGroup .user (user.map escape) e)) = some b) :
    run (.opt userPattern) k (userText user password ++ rest, e) = some b := by
  cases user with
  | none =>
      have hnone : password = none := by
        cases password with
        | none => rfl
        | some word => cases hpassword rfl
      rw [hnone] at hk ⊢
      exact (run_opt_of_none (run_userPattern_none k (hnoAt rfl))).trans hk
  | some name =>
      apply run_opt_of_some
      have hstops : Stops (partText '/' (password.map escape) ++ '@' :: rest) := by
        intro c hc
        cases password with
        | none =>
            cases hc
            exact .inr (.inl rfl)
        | some word =>
            cases hc
            exact .inl rfl
      have hat : run (.char '@') k ('@' :: rest, setGroup .password (password.map escape)
          (setGroup .user (some (escape name)) e)) = some b :=
        (run_cls_cons (decide_eq_true rfl) rest _).trans hk
      have hread := run_group_plus_units (k := run (.seq passwordPattern (.char '@')) k)
        readsUnits_token (stuck_token hstops) (hne name rfl) (run_passwordPattern hat)
      rw [userText, List.append_assoc, List.append_assoc, List.singleton_append]
      exact hread

end Reading

/-! ## Unescaping -/

theorem run_escapePattern_token {c : Char} (h : isSeparator c = true) (rest : List Char) :
    run escapePattern some ('\\' :: c :: rest, fun _ => none) =
      some (rest, Function.update (fun _ => none) () (some [c])) := by
  have hlength : (c :: rest).length - rest.length = 1 := by
    rw [List.length_cons]
    omega
  simp [escapePattern, Pattern.char, run, h]

theorem run_escapePattern_plain {c : Char} (h : isSeparator c = false) (rest : List Char) :
    run escapePattern some (c :: rest, fun _ => none) = none := by
  have hplain : c ≠ '\\' := by
    rintro rfl
    cases h
  simp [escapePattern, Pattern.char, run, hplain]

theorem sub_escape (string : List Char) {n : Nat} (hn : (escape string).length ≤ n) :
    sub escapePattern (fun captures => (captures ()).getD []) n (escape string) = string := by
  induction string generalizing n with
  | nil => cases n <;> rfl
  | cons c string ih =>
      rw [escape, List.flatMap_cons, escapeChar] at hn ⊢
      by_cases hseparator : isSeparator c = true
      · rw [if_pos hseparator, List.cons_append, List.singleton_append, List.length_cons,
          List.length_cons] at hn
        cases n with
        | zero => cases hn
        | succ n =>
            have hrest := ih (Nat.le_of_succ_le (Nat.le_of_succ_le_succ hn))
            rw [if_pos hseparator, List.cons_append, List.singleton_append, sub,
              run_escapePattern_token hseparator]
            dsimp only
            rw [if_pos (by rw [List.length_cons, List.length_cons]; omega), Function.update_self]
            exact congrArg _ hrest
      · rw [if_neg hseparator, List.singleton_append, List.length_cons] at hn
        cases n with
        | zero => cases hn
        | succ n =>
            have hrest := ih (Nat.le_of_succ_le_succ hn)
            rw [if_neg hseparator, List.singleton_append, sub,
              run_escapePattern_plain (Bool.not_eq_true _ ▸ hseparator)]
            exact congrArg _ hrest

theorem unescape_escape (string : Option (List Char)) : unescape (string.map escape) = string := by
  cases string with
  | none => rfl
  | some string => exact congrArg some (sub_escape string (le_refl _))

/-! ## The round trip -/

@[simp] theorem setGroup_self (name : Group) (found : Option (List Char)) (e : Captures Group) :
    setGroup name found e name = found.or (e name) := by
  cases found with
  | none => rfl
  | some text => exact Function.update_self ..

@[simp] theorem setGroup_of_ne {name other : Group} (h : other ≠ name)
    (found : Option (List Char)) (e : Captures Group) : setGroup name found e other = e other := by
  cases found with
  | none => rfl
  | some text => exact Function.update_of_ne h ..

/-- The groups of a rendered string. -/
def ConnectionParts.captures (parts : ConnectionParts) : Captures Group :=
  setGroup .database (parts.database.map escape) <| setGroup .port parts.port <|
    setGroup .host (parts.host.map escape) <| setGroup .password (parts.password.map escape) <|
      setGroup .user (parts.user.map escape) fun _ => none

theorem exists_digits {number : List Char} (h : ∀ c ∈ number, isDigitChar c = true) :
    ∃ units : List { c // isDigitChar c = true }, units.flatMap (fun c => [c.val]) = number :=
  ⟨number.attachWith _ h, by simp⟩

theorem escape_number {number : List Char} (h : ∀ c ∈ number, isDigitChar c = true) :
    escape number = number := by
  induction number with
  | nil => rfl
  | cons c number ih =>
      have ⟨hc, hrest⟩ := List.forall_mem_cons.mp h
      rw [escape, List.flatMap_cons, escapeChar, isSeparator_of_digit hc]
      exact congrArg (List.cons c) (ih hrest)

theorem noAt_partText {separator : Char} (h : separator = '/' ∨ separator = ':')
    (part : Option (List Char)) {rest : List Char} (hrest : NoAt rest) :
    NoAt (partText separator (part.map escape) ++ rest) := by
  cases part with
  | none => exact hrest
  | some string => exact .separator h (hrest.escape_append string)

theorem ConnectionParts.port_escape (parts : ConnectionParts) :
    parts.port.map escape = parts.port := by
  cases hport : parts.port with
  | none => rfl
  | some number =>
      exact congrArg some (escape_number (parts.port_digits number hport))

/-- Behind the `@` there is no other one. -/
theorem ConnectionParts.noAt_rest (parts : ConnectionParts) :
    NoAt ((parts.host.map escape).getD [] ++
      (partText ':' parts.port ++ partText '/' (parts.database.map escape))) := by
  have hdatabase := noAt_partText (.inl rfl) parts.database NoAt.nil
  have hport := noAt_partText (.inr rfl) parts.port hdatabase
  rw [List.append_nil, parts.port_escape] at hport
  cases parts.host with
  | none => exact hport
  | some name => exact hport.escape_append name

theorem head_partText {separator c : Char} {part : Option (List Char)} {rest : List Char}
    (h : c ∈ (partText separator part ++ rest).head?) : c = separator ∨ c ∈ rest.head? := by
  cases part with
  | none => exact .inr h
  | some string =>
      cases h
      exact .inl rfl

theorem run_databasePattern {database : Option (List Char)} (hne : ∀ name ∈ database, name ≠ [])
    (e : Captures Group) :
    run (partPattern '/' .database token) some (partText '/' (database.map escape), e) =
      some ([], setGroup .database (database.map escape) e) := by
  have hstuck : Stuck token [] := stuck_token nofun
  have hread : run (partPattern '/' .database token) some
      (partText '/' (database.map escape) ++ [], e) = _ :=
    run_partPattern readsUnits_token hstuck nofun database hne rfl
  rwa [List.append_nil] at hread

theorem run_portPattern {β : Type} {k : Position Group → Option β} {b : β} {rest : List Char}
    {e : Captures Group} (hrest : ∀ c ∈ rest.head?, c = '/') (parts : ConnectionParts)
    (hk : k (rest, setGroup .port parts.port e) = some b) :
    run (partPattern ':' .port (.cls isDigitChar)) k (partText ':' parts.port ++ rest, e) =
      some b := by
  have hstuck : Stuck (.cls isDigitChar : Pattern Group) rest := by
    constructor
    intro β k e
    apply run_cls_of_head
    intro c hc
    rw [hrest c hc]
    rfl
  have hother : ':' ∉ rest.head? := fun hc => absurd (hrest ':' hc) (by decide)
  cases hport : parts.port with
  | none =>
      rw [hport] at hk
      exact run_partPattern readsUnits_digit hstuck hother none nofun hk
  | some number =>
      have ⟨units, hunits⟩ := exists_digits (parts.port_digits number hport)
      have hne : units ≠ [] := by
        rintro rfl
        exact parts.port_ne number hport hunits.symm
      rw [hport, ← hunits] at hk
      have hread := run_partPattern readsUnits_digit hstuck hother (some units)
        (by rintro _ ⟨⟩; exact hne) hk
      rwa [Option.map_some, hunits] at hread

/-- The pattern finds every part of a rendered string. -/
theorem search_render (parts : ConnectionParts) :
    search connectionPattern parts.render = some ([], parts.captures) := by
  have hslash : ∀ c ∈ (partText '/' (parts.database.map escape)).head?, c = '/' := by
    intro c hc
    rw [← List.append_nil (partText _ _)] at hc
    exact (head_partText hc).resolve_right nofun
  have hstops : Stops (partText ':' parts.port ++ partText '/' (parts.database.map escape)) := by
    intro c hc
    exact (head_partText hc).elim (fun h => .inr (.inr h)) (fun h => .inl (hslash c h))
  have hmatch : run connectionPattern some (parts.render, fun _ => none) =
      some ([], parts.captures) := by
    apply run_userPattern parts.user_ne parts.password_user (fun _ => parts.noAt_rest)
    apply run_hostPattern hstops parts.host_ne
    apply run_portPattern hslash parts
    exact run_databasePattern parts.database_ne _
  unfold search
  cases htext : parts.render with
  | nil =>
      rw [htext] at hmatch
      rw [List.tails, List.findSome?_cons, hmatch]
  | cons c rest =>
      rw [htext] at hmatch
      rw [List.tails, List.findSome?_cons, hmatch]

/-- Parsing a rendered connection string gives its parts back, so no two are rendered alike. -/
theorem parseConnectionStr_render (parts : ConnectionParts) :
    parseConnectionStr parts.render = some parts.toConnectionFields ∧
      ∀ parts' : ConnectionParts, parts'.render = parts.render → parts' = parts := by
  have hparse : ∀ parts : ConnectionParts,
      parseConnectionStr parts.render = some parts.toConnectionFields := by
    intro parts
    rw [parseConnectionStr, search_render]
    simp [ConnectionParts.captures, unescape_escape]
  refine ⟨hparse parts, fun parts' heq => ?_⟩
  have hfields : some parts'.toConnectionFields = some parts.toConnectionFields := by
    rw [← hparse, ← hparse, heq]
  have hsame := Option.some.inj hfields
  ext1
  · exact congrArg ConnectionFields.user hsame
  · exact congrArg ConnectionFields.password hsame
  · exact congrArg ConnectionFields.host hsame
  · exact congrArg ConnectionFields.port hsame
  · exact congrArg ConnectionFields.database hsame

end Madlib.Madpack
