import PhpMembers.Syntax.Production

/-! # What a production does to a parse

Every production is built from a few steps, so a parse changes in a few ways only: tokens are taken in
order, errors are recorded, and what has been built is gathered into nodes. `Moves` lists these ways; what
holds of each of them holds of every rule of the grammar.

A token may be recorded under another kind than its own. Where a production does that, the condition for it
was tested some steps before, so what is known about the tokens around is carried along.

* `Outlook` : the kinds of the tokens around the place of a parse.
* `Outlook.MayRecord` : the kinds under which the next token may be recorded.
* `Moves` : the changes of a parse.
* `Production.Known`, `Production.Guarded` : what is known after a production, and that this is enough for
  each token it takes under another kind and each rule it follows.
* `Production.Guarded.run_moves` : a guarded production only moves. -/

namespace PhpMembers

/-! ## (1) The tokens around a place -/

/-- The kinds of the tokens around the place of a parse, trivia left out. -/
structure Outlook where
  /-- The kinds of the tokens that have been read, latest first. -/
  past : List Kind
  /-- The kinds of the tokens ahead. -/
  ahead : List Kind

namespace Outlook

/-- The kind of the `n`-th token ahead; past the last one, `Kind.error`. -/
def kindAt (o : Outlook) (n : Nat) : Kind := (o.ahead[n]?).getD .error

/-- The outlook after the next token. -/
def step (o : Outlook) : Outlook :=
  match o.ahead with
  | [] => o
  | kind :: rest => ⟨kind :: o.past, rest⟩

/-- The kinds under which the next token may be recorded: its own, `Kind.ident` for a reserved word, and
`Kind.qualifiedName` for a name after `namespace` and a separator. -/
def MayRecord (o : Outlook) (kind : Kind) : Prop :=
  kind = o.kindAt 0 ∨
    kind = .ident ∧ (o.kindAt 0).isMemberName = true ∨
    kind = .qualifiedName ∧ (o.kindAt 0).isMemberName = true ∧
      o.past.take 2 = [.backslash, .namespaceKw]

end Outlook

/-- The kinds of the tokens ahead. -/
def Parsing.kinds (s : Parsing) : List Kind := s.ahead.map (·.token.kind)

/-- The outlook of a parse that has read tokens of the given kinds. -/
def Parsing.outlook (s : Parsing) (past : List Kind) : Outlook := ⟨past, s.kinds⟩

/-- Both ways to ask for the kind of a token ahead agree. -/
theorem Parsing.kindAt_outlook (s : Parsing) (past : List Kind) (n : Nat) :
    (s.outlook past).kindAt n = s.kindAt n := by
  simp only [outlook, Outlook.kindAt, kinds, Parsing.kindAt, List.getElem?_map]
  cases s.ahead[n]? <;> rfl

/-! ## (2) The changes of a parse -/

namespace Parsing

variable {s : Parsing}

/-- A token that is taken becomes a leaf behind the trivia in front of it. -/
theorem take_eq (rename : Kind → Kind) {next : Lexeme} {rest : List Lexeme} (ahead : s.ahead = next :: rest) :
    s.take rename = { s.flush with
      gap := next.after
      ahead := rest
      built := .leaf (rename next.token.kind) next.token.text :: s.flush.built } := by
  simp [take, flush, ahead]

/-- At the end no token is taken. -/
theorem take_of_nil (rename : Kind → Kind) (ahead : s.ahead = []) : s.take rename = s.flush := by
  simp [take, flush, ahead]

end Parsing

/-- `Moves past s past' s'`: a parse goes from `s` to `s'`, and the kinds of the tokens read, latest first,
grow from `past` to `past'`. -/
inductive Moves : List Kind → Parsing → List Kind → Parsing → Prop
  /-- Nothing happens. -/
  | stay {past : List Kind} {s : Parsing} : Moves past s past s
  /-- One change after the other. -/
  | trans {past past' past'' : List Kind} {s t u : Parsing} (first : Moves past s past' t)
      (second : Moves past' t past'' u) : Moves past s past'' u
  /-- The trivia in front of the next token is put into the open construct. -/
  | flush {past : List Kind} {s : Parsing} : Moves past s past s.flush
  /-- The next token is taken. -/
  | take {past : List Kind} {s : Parsing} {next : Lexeme} {rest : List Lexeme} {kind : Kind}
      (ahead : s.ahead = next :: rest) (may : (s.outlook past).MayRecord kind) :
      Moves past s (next.token.kind :: past) (s.take fun _ => kind)
  /-- A fault is recorded. -/
  | report {past : List Kind} {s : Parsing} {fault : Fault} : Moves past s past (s.report fault)
  /-- A node is built from what is read inside it. -/
  | node {past past' : List Kind} {s t : Parsing} {kind : Kind}
      (inner : Moves past s.flush.fresh past' t) :
      Moves past s past' { t with built := .node kind t.built.reverse :: s.flush.built }
  /-- Parts are read that can be gathered among themselves only. -/
  | group {past past' : List Kind} {s t : Parsing} (inner : Moves past s.flush.fresh past' t) :
      Moves past s past' { t with built := t.built ++ s.flush.built }
  /-- Everything in the open construct is gathered into one node. -/
  | wrap {past : List Kind} {s : Parsing} {kind : Kind} :
      Moves past s past { s with built := [.node kind s.built.reverse] }

namespace Moves

variable {past past' : List Kind} {s t : Parsing}

/-- The tokens ahead afterwards are a tail of those before, and the others have been read in order. -/
theorem kinds_eq (h : Moves past s past' t) :
    ∃ read, s.ahead = read ++ t.ahead ∧
      past' = (read.map (·.token.kind)).reverse ++ past := by
  induction h with
  | stay => exact ⟨[], rfl, rfl⟩
  | trans _ _ ih₁ ih₂ =>
      obtain ⟨read₁, ahead₁, past₁⟩ := ih₁
      obtain ⟨read₂, ahead₂, past₂⟩ := ih₂
      refine ⟨read₁ ++ read₂, ?_, ?_⟩
      · rw [ahead₁, ahead₂, List.append_assoc]
      · rw [past₂, past₁, List.map_append, List.reverse_append, List.append_assoc]
  | flush => exact ⟨[], rfl, rfl⟩
  | @take past s next rest kind ahead may =>
      refine ⟨[next], ?_, rfl⟩
      simp only [Parsing.take, Parsing.flush, ahead]
      rfl
  | report => exact ⟨[], rfl, rfl⟩
  | node _ ih => exact ih
  | group _ ih => exact ih
  | wrap => exact ⟨[], rfl, rfl⟩

/-- No token comes back. -/
theorem length_ahead_le (h : Moves past s past' t) : t.ahead.length ≤ s.ahead.length := by
  obtain ⟨read, ahead, -⟩ := h.kinds_eq
  rw [ahead, List.length_append]
  exact Nat.le_add_left _ _

/-- Taking a token under a kind that the outlook allows; at the end of the text nothing is taken. -/
theorem take_of (rename : Kind → Kind) (may : (s.outlook past).MayRecord (rename (s.kindAt 0))) :
    ∃ past', Moves past s past' (s.take rename) ∧
      (s.take rename).outlook past' = (s.outlook past).step := by
  cases ahead : s.ahead with
  | nil =>
      refine ⟨past, ?_, ?_⟩
      · rw [Parsing.take_of_nil rename ahead]
        exact .flush
      · simp [Parsing.take, Parsing.flush, Parsing.outlook, Parsing.kinds, Outlook.step, ahead]
  | cons next rest =>
      have kind : s.kindAt 0 = next.token.kind := by simp [Parsing.kindAt, ahead]
      have same : s.take rename = s.take fun _ => rename (s.kindAt 0) := by
        simp [Parsing.take, Parsing.flush, ahead, kind]
      refine ⟨next.token.kind :: past, ?_, ?_⟩
      · rw [same]
        exact .take ahead may
      · simp [Parsing.take, Parsing.flush, Parsing.outlook, Parsing.kinds, Outlook.step, ahead]

end Moves

/-! ## (3) What is known on the way through a production -/

/-- What is known about the tokens around the place of a parse. -/
abbrev Knowledge := Outlook → Prop

/-- What the answer to a condition tells. Texts and trivia are not looked at. -/
def Lookahead.Tells (o : Outlook) (answer : Bool) : Lookahead → Prop
  | kind n test => test (o.kindAt n) = answer
  | kinds test => test o.ahead = answer
  | atEnd | word _ _ | closeTag => True

/-- A condition that holds tells what it says. -/
theorem Lookahead.tells_holds (condition : Lookahead) (s : Parsing) (past : List Kind) :
    condition.Tells (s.outlook past) (condition.holds s) := by
  cases condition with
  | kind n test => simp only [Tells, holds, Parsing.kindAt_outlook]
  | kinds test => rfl
  | atEnd => trivial
  | word n words => trivial
  | closeTag => trivial

namespace Production

variable {ρ : Type}

/-- What is known after a production has given an answer, from what was known before it. Nothing is known
after a rule or a loop. -/
def Known : Production ρ → Knowledge → Bool → Knowledge
  | answer ok, before, result => fun o => ok = result ∧ before o
  | look condition, before, result => fun o => condition.Tells o result ∧ before o
  | bump, before, _ | bumpAs _, before, _ => fun o => ∃ o', before o' ∧ o = o'.step
  | fault _, before, _ => before
  | andThen first second, before, result =>
    Known second (fun o => ∃ r, Known first before r o) result
  | branch condition yes no, before, result => fun o =>
    Known yes (Known condition before true) result o ∨
      Known no (Known condition before false) result o
  | byKind cases, before, result => fun o =>
    ∃ kind, Known (cases kind) (fun o => before o ∧ o.kindAt 0 = kind) result o
  | node _ body, before, result | group body, before, result | wrap _ body, before, result =>
    Known body before result
  | loop _, _, _ | advances _, _, _ | call _, _, _ => fun _ => True

/-- Whether what is known allows each kind under which a token is taken, and makes each rule that is
followed ready. -/
@[simp]
def Guarded (ready : ρ → Knowledge) : Production ρ → Knowledge → Prop
  | answer _, _ | look _, _ | bump, _ | fault _, _ => True
  | bumpAs kind, before => ∀ o, before o → o.MayRecord kind
  | andThen first second, before =>
    Guarded ready first before ∧ Guarded ready second fun o => ∃ r, Known first before r o
  | branch condition yes no, before =>
    Guarded ready condition before ∧ Guarded ready yes (Known condition before true) ∧
      Guarded ready no (Known condition before false)
  | byKind cases, before =>
    ∀ kind, Guarded ready (cases kind) fun o => before o ∧ o.kindAt 0 = kind
  | node _ body, before | group body, before | wrap _ body, before | advances body, before =>
    Guarded ready body before
  | loop body, _ => Guarded ready body fun _ => True
  | call rule, before => ∀ o, before o → ready rule o

/-- Repeating a step that only moves only moves. -/
theorem iterate_moves {step : Parsing → Bool × Parsing}
    (moves : ∀ past s, ∃ past', Moves past s past' (step s).2) (n : Nat) (past : List Kind)
    (s : Parsing) : ∃ past', Moves past s past' (iterate step n s) := by
  induction n generalizing past s with
  | zero => exact ⟨past, .stay⟩
  | succ n ih =>
      obtain ⟨past₁, first⟩ := moves past s
      rw [iterate]
      rcases found : step s with ⟨_ | _, t⟩
      · rw [found] at first
        exact ⟨past₁, first⟩
      · rw [found] at first
        obtain ⟨past₂, second⟩ := ih past₁ t
        exact ⟨past₂, first.trans second⟩

/-- **A guarded production only moves**, if the rules that it follows do so whenever they are ready. -/
theorem Guarded.run_moves {ready : ρ → Knowledge} {follow : ρ → Parsing → Bool × Parsing}
    (moves : ∀ rule past s, ready rule (s.outlook past) →
      ∃ past', Moves past s past' (follow rule s).2)
    (p : Production ρ) {before : Knowledge} (guarded : p.Guarded ready before) {past : List Kind}
    {s : Parsing} (holds : before (s.outlook past)) :
    ∃ past', Moves past s past' (p.run follow s).2 ∧
      p.Known before (p.run follow s).1 ((p.run follow s).2.outlook past') := by
  -- The induction is on the production; what is known grows along it, so it is generalized.
  induction p generalizing before past s with
  | answer ok => exact ⟨past, .stay, rfl, holds⟩
  | look condition => exact ⟨past, .stay, condition.tells_holds s past, holds⟩
  | bump =>
      have may : (s.outlook past).MayRecord (s.kindAt 0) :=
        Or.inl (s.kindAt_outlook past 0).symm
      obtain ⟨past', move, step⟩ := Moves.take_of id may
      exact ⟨past', move, s.outlook past, holds, step⟩
  | bumpAs kind =>
      obtain ⟨past', move, step⟩ := Moves.take_of (fun _ => kind) (guarded _ holds)
      exact ⟨past', move, s.outlook past, holds, step⟩
  | fault cause => exact ⟨past, .report, holds⟩
  | andThen first second ih₁ ih₂ =>
      obtain ⟨past₁, move₁, known₁⟩ := ih₁ guarded.1 holds
      obtain ⟨past₂, move₂, known₂⟩ := ih₂ guarded.2 ⟨_, known₁⟩
      exact ⟨past₂, move₁.trans move₂, known₂⟩
  | branch condition yes no ih ihYes ihNo =>
      obtain ⟨past₁, move₁, known₁⟩ := ih guarded.1 holds
      rw [run]
      rcases found : run follow condition s with ⟨_ | _, t⟩
      · rw [found] at move₁ known₁
        obtain ⟨past₂, move₂, known₂⟩ := ihNo guarded.2.2 known₁
        exact ⟨past₂, move₁.trans move₂, Or.inr known₂⟩
      · rw [found] at move₁ known₁
        obtain ⟨past₂, move₂, known₂⟩ := ihYes guarded.2.1 known₁
        exact ⟨past₂, move₁.trans move₂, Or.inl known₂⟩
  | byKind cases ih =>
      obtain ⟨past', move, known⟩ :=
        ih (s.kindAt 0) (guarded _) ⟨holds, s.kindAt_outlook past 0⟩
      exact ⟨past', move, _, known⟩
  | node kind body ih =>
      obtain ⟨past', move, known⟩ := ih (s := s.flush.fresh) guarded holds
      exact ⟨past', move.node, known⟩
  | group body ih =>
      obtain ⟨past', move, known⟩ := ih (s := s.flush.fresh) guarded holds
      exact ⟨past', move.group, known⟩
  | wrap kind body ih =>
      obtain ⟨past', move, known⟩ := ih guarded holds
      exact ⟨past', move.trans .wrap, known⟩
  | loop body ih =>
      -- Nothing is known at the start of a later round.
      have each : ∀ past s, ∃ past', Moves past s past' (body.run follow s).2 := by
        intro past s
        obtain ⟨past', move, -⟩ := @ih _ guarded past s trivial
        exact ⟨past', move⟩
      obtain ⟨past', move⟩ := iterate_moves each (s.ahead.length + 1) past s
      exact ⟨past', move, trivial⟩
  | advances body ih =>
      obtain ⟨past', move, -⟩ := ih guarded holds
      exact ⟨past', move, trivial⟩
  | call rule =>
      obtain ⟨past', move⟩ := moves rule past s (guarded _ holds)
      exact ⟨past', move, trivial⟩

/-! ## (4) Guards of the productions built from steps -/

variable {ready : ρ → Knowledge} {before : Knowledge} {p q : Production ρ}

@[simp] theorem guarded_ok : (ok : Production ρ).Guarded ready before := trivial

@[simp] theorem guarded_stop : (stop : Production ρ).Guarded ready before := trivial

@[simp] theorem guarded_seq_single : (seq [p]).Guarded ready before ↔ p.Guarded ready before := Iff.rfl

@[simp] theorem guarded_seq_cons {ps : List (Production ρ)} :
    (seq (p :: q :: ps)).Guarded ready before ↔
      p.Guarded ready before ∧
        (seq (q :: ps)).Guarded ready fun o => ∃ result, p.Known before result o := Iff.rfl

@[simp] theorem guarded_both : (both p q).Guarded ready before ↔
    p.Guarded ready before ∧ q.Guarded ready (p.Known before true) := by simp [both]

@[simp] theorem guarded_either : (either p q).Guarded ready before ↔
    p.Guarded ready before ∧ q.Guarded ready (p.Known before false) := by simp [either]

@[simp] theorem guarded_negate : (negate p).Guarded ready before ↔ p.Guarded ready before := by
  simp [negate]

@[simp] theorem guarded_when : (when p q).Guarded ready before ↔
    p.Guarded ready before ∧ q.Guarded ready (p.Known before true) := by simp [when]

@[simp] theorem guarded_also : (also p).Guarded ready before ↔ p.Guarded ready before := by
  simp [also]

@[simp] theorem guarded_atEnd : (atEnd : Production ρ).Guarded ready before := trivial

@[simp] theorem guarded_nthIs (n : Nat) (kind : Kind) :
    (nthIs n kind : Production ρ).Guarded ready before := trivial

@[simp] theorem guarded_next (kind : Kind) : (next kind : Production ρ).Guarded ready before := trivial

@[simp] theorem guarded_nextAmong (kinds : List Kind) :
    (nextAmong kinds : Production ρ).Guarded ready before := trivial

@[simp] theorem guarded_eat (kind : Kind) : (eat kind : Production ρ).Guarded ready before := by
  simp [eat]

@[simp] theorem guarded_expect (kind : Kind) : (expect kind : Production ρ).Guarded ready before := by
  simp [expect]

@[simp] theorem guarded_eatWhile (kinds : List Kind) :
    (eatWhile kinds : Production ρ).Guarded ready before := by simp [eatWhile]

@[simp] theorem guarded_memberName (missing : Fault) :
    (memberName missing : Production ρ).Guarded ready before := by
  refine ⟨trivial, fun o known => ?_, trivial⟩
  exact Or.inr (Or.inl ⟨rfl, known.1⟩)

@[simp] theorem guarded_commaList : (commaList p).Guarded ready before ↔
    p.Guarded ready before ∧ p.Guarded ready ((eat .comma : Production ρ).Known (fun _ => True) true) := by
  simp [commaList]

@[simp] theorem guarded_untilClosed (closing : Kind) : (untilClosed closing p).Guarded ready before ↔
    p.Guarded ready ((either atEnd (next closing) : Production ρ).Known (fun _ => True) false) := by
  simp [untilClosed]

@[simp] theorem guarded_recover (cause : Fault) (stops : List Kind) :
    (recover cause stops : Production ρ).Guarded ready before := by simp [recover]

@[simp] theorem guarded_advancing (cause : Fault) (stops : List Kind) :
    (advancing cause stops p).Guarded ready before ↔ p.Guarded ready before := by simp [advancing]

@[simp] theorem guarded_unstuck (closing : Kind) :
    (unstuck closing p).Guarded ready before ↔ p.Guarded ready before := by simp [unstuck]

end Production

end PhpMembers
