import Mathlib.Data.List.Forall2
import Mathlib.Data.List.ReduceOption
import ParityBlocks.Proofs.Recognition
import ParityBlocks.Proofs.StoredVariables

/-!
# What a problem keeps of its file

What a line lists is its `Cnf.Content`, told without the lines before it (`Cnf.Tells`); blank lines
and comments have none. Lines are read exactly if each tells its content or that it has none, and
each content fits what was declared before it (`Cnf.readLines_eq_ok_iff`, by induction on the
lines). So a file is a problem exactly if the first content is a header and all others are lists of
the variables that it declares (`Cnf.Problem.ofLines_eq_ok_iff`).

The problem gathers the contents by kind, each kind in the order of the file
(`Cnf.Problem.Gathers`). The header has to come first, but how contents of different kinds are
mixed after it makes no difference, and neither do blank lines and comments, wherever they stand
(`Cnf.Problem.ofBytes_gathers`).
-/

namespace ParityBlocks

namespace Cnf

/-- What a line lists. Literals are numbers, and their variables count from 1. -/
inductive Content
  /-- The declared number of variables. -/
  | header (n : Nat)
  | sampling (ks : List Int)
  | parity (ks : List Int)
  /-- A clause with one literal. -/
  | unit (k : Int)
  /-- A clause with two or more literals. -/
  | longClause (ks : List Int)

/-- The line has this content, or none. -/
inductive Tells (line : List Char) : Option Content → Prop
  | blank (h : Text.trim line = []) : Tells line none
  | comment (h : (Text.trim line).head? = some 'c')
    (other : ∀ rest, ¬ IsSampling (Text.trim line) rest) : Tells line none
  | header {n : Nat} (h : Declares line n) : Tells line (some (.header n))
  | sampling {rest : List Char} {ks : List Int} (h : IsSampling (Text.trim line) rest)
    (list : integers? rest = some (ks ++ [0])) (positive : ∀ k ∈ ks, 0 < k) :
    Tells line (some (.sampling ks))
  | parity {ks : List Int} (h : IsParity line ks) : Tells line (some (.parity ks))
  | unit {k : Int} (h : IsUnit line k) : Tells line (some (.unit k))
  | longClause {k k' : Int} {ks : List Int} (nonzero : 0 ∉ k :: k' :: ks)
    (list : integers? (Text.trim line) = some (k :: k' :: ks ++ [0])) :
    Tells line (some (.longClause (k :: k' :: ks)))

namespace Content

/-- The kinds of contents. -/
inductive Kind
  | header
  | sampling
  | parity
  | unit
  | longClause
deriving DecidableEq

def kind : Content → Kind
  | header _ => .header
  | sampling _ => .sampling
  | parity _ => .parity
  | unit _ => .unit
  | longClause _ => .longClause

def literals : Content → List Int
  | header _ => []
  | sampling ks | parity ks | longClause ks => ks
  | unit k => [k]

def header? : Content → Option Nat
  | header n => some n
  | _ => none

def sampling? : Content → Option (List Int)
  | sampling ks => some ks
  | _ => none

def parity? : Content → Option (List Int)
  | parity ks => some ks
  | _ => none

def unit? : Content → Option Int
  | unit k => some k
  | _ => none

/-- What is read of a line with this content. -/
def statement : Content → Statement
  | header n => .header n
  | sampling ks => .sampling (ks.map stored)
  | parity ks => .parity (parityOf ks)
  | unit k => .unit (unitOf k).1 (unitOf k).2
  | longClause _ => .longClause

/-- The content may follow what was declared before it. -/
def Fits (declared : Option Nat) : Content → Prop
  | header _ => declared = none
  | sampling ks | parity ks | longClause ks => ∃ n, declared = some n ∧ AreLiterals n ks
  | unit k => ∃ n, declared = some n ∧ AreLiterals n [k]

/-- Each of the contents may follow what was declared before it. -/
def FitAll : Option Nat → List Content → Prop
  | _, [] => True
  | declared, c :: cs =>
    c.Fits declared ∧ FitAll (Statement.declaredAfter declared (some c.statement)) cs

/-- The second contents start like the first and have the same of each kind in the same order. -/
structure Rearranges (cs cs' : List Content) : Prop where
  head?_eq : cs'.head? = cs.head?
  filter_eq (k : Kind) : cs'.filter (fun c => c.kind = k) = cs.filter fun c => c.kind = k

/-- The constraint is about the variables of the literals in their order, from 0 on, and asks
that an odd number of the literals is true. -/
structure Asks (ks : List Int) (c : Constraint) : Prop where
  vars_eq : c.vars = ks.map fun k => k.natAbs - 1
  holds_iff (b : Nat → Bool) : c.Holds (fromZero b) ↔ literalSum b ks = true
  fresh_eq : c.fresh = c

end Content

/-- The content of lines of this kind. -/
def Line.content? : Line → Option Content
  | .blank | .comment => none
  | .header digits => some (.header (Text.digitsValue digits))
  | .sampling text => some (.sampling (listed text))
  | .parity text => some (.parity (listed text))
  | .clause text =>
    match listed text with
    | [k] => some (.unit k)
    | ks => some (.longClause ks)

/-- The problem has the contents by kind, each kind in order. -/
structure Problem.Gathers (cs : List Content) (p : Problem) : Prop where
  header_eq : cs.filterMap Content.header? = [p.varCount]
  constraints : List.Forall₂ Content.Asks (cs.filterMap Content.parity?) p.constraints
  units_eq : p.units =
    (cs.filterMap Content.unit?).map fun k => (k.natAbs - 1, decide (0 < k))
  skippedClauses_eq : p.skippedClauses = cs.countP fun c => c.kind = .longClause
  sampling_eq_none_iff : p.sampling = none ↔ cs.filterMap Content.sampling? = []
  sampling_eq {vars : List Var} : p.sampling = some vars →
    vars = (cs.filterMap Content.sampling?).flatten.map fun k => k.natAbs - 1

/-! ## Lines -/

section Lines

variable {before lines : List (List Char)} {declared : Option Nat} {line : List Char}
  {st? : Option Statement} {sts : List Statement}

/-- Lists of declared variables are lists of the variables that a line before declares. -/
theorem exists_declared_iff (hd : ∀ n, declared = some n ↔ ∃ l ∈ before, Declares l n)
    {ks : List Int} : (∃ n, declared = some n ∧ AreLiterals n ks) ↔
      ∃ l ∈ before, ∃ n, Declares l n ∧ AreLiterals n ks := by
  constructor
  · rintro ⟨n, hn, hks⟩
    obtain ⟨l, hl, hn⟩ := (hd n).mp hn
    exact ⟨l, hl, n, hn, hks⟩
  · rintro ⟨l, hl, n, hn, hks⟩
    exact ⟨n, (hd n).mpr ⟨l, hl, hn⟩, hks⟩

/-- What a line says after the lines before it is its content, which fits what they declare. -/
theorem Says.exists_tells (hd : ∀ n, declared = some n ↔ ∃ l ∈ before, Declares l n)
    (h : Says before line st?) :
    ∃ c?, Tells line c? ∧ st? = c?.map Content.statement ∧ ∀ c ∈ c?, c.Fits declared := by
  have nonzero : ∀ {n ks}, AreLiterals n ks → 0 ∉ ks := fun h hzero => (h 0 hzero).1 rfl
  have fits : ∀ {l n ks}, l ∈ before → Declares l n → AreLiterals n ks →
      ∃ n, declared = some n ∧ AreLiterals n ks :=
    fun hl hn hks => (exists_declared_iff hd).mpr ⟨_, hl, _, hn, hks⟩
  cases h with
  | blank h => exact ⟨none, .blank h, rfl, by simp⟩
  | @header n h first =>
    refine ⟨some (.header n), .header h, rfl, ?_⟩
    rintro _ ⟨⟩
    exact (declared_eq_none_iff hd).mpr first
  | @sampling l rest n ks hl hn h list positive =>
    refine ⟨some (.sampling ks), .sampling h list.1 positive, rfl, ?_⟩
    rintro _ ⟨⟩
    exact fits hl hn list.2
  | comment h other => exact ⟨none, .comment h other, rfl, by simp⟩
  | @parity l text n ks hl hn h list =>
    refine ⟨some (.parity ks), .parity ⟨nonzero list.2, text, h, list.1⟩, ?_, ?_⟩
    · rw [Statement.ofParityLiterals_map]
      rfl
    · rintro _ ⟨⟩
      exact fits hl hn list.2
  | @unit l n k hl hn list =>
    have hzero := (list.2 k (List.mem_singleton_self k)).1
    refine ⟨some (.unit k), .unit ⟨hzero, list.1⟩, ?_, ?_⟩
    · rw [Literal.not_negated_ofInt hzero]
      rfl
    · rintro _ ⟨⟩
      exact fits hl hn list.2
  | @longClause l n k k' ks hl hn list =>
    refine ⟨some (.longClause (k :: k' :: ks)), .longClause (nonzero list.2) list.1, rfl, ?_⟩
    rintro _ ⟨⟩
    exact fits hl hn list.2

namespace Tells

variable {c? : Option Content}

/-- A line may say its content if that fits what the lines before it declare. -/
theorem says_statement (hd : ∀ n, declared = some n ↔ ∃ l ∈ before, Declares l n)
    (h : Tells line c?) (hfits : ∀ c ∈ c?, c.Fits declared) :
    Says before line (c?.map Content.statement) := by
  cases h with
  | blank h => exact .blank h
  | comment h other => exact .comment h other
  | header h => exact .header h ((declared_eq_none_iff hd).mp (hfits _ rfl))
  | sampling h list positive =>
    obtain ⟨l, hl, n, hn, hks⟩ := (exists_declared_iff hd).mp (hfits _ rfl)
    exact .sampling hl hn h ⟨list, hks⟩ positive
  | parity h =>
    obtain ⟨l, hl, n, hn, hks⟩ := (exists_declared_iff hd).mp (hfits _ rfl)
    obtain ⟨-, text, htext, list⟩ := h
    have hsays := Says.parity hl hn htext ⟨list, hks⟩
    rwa [Statement.ofParityLiterals_map] at hsays
  | unit h =>
    obtain ⟨l, hl, n, hn, hks⟩ := (exists_declared_iff hd).mp (hfits _ rfl)
    have hsays := Says.unit hl hn ⟨h.2, hks⟩
    rwa [Literal.not_negated_ofInt h.1] at hsays
  | longClause _ list =>
    obtain ⟨l, hl, n, hn, hks⟩ := (exists_declared_iff hd).mp (hfits _ rfl)
    exact .longClause hl hn ⟨list, hks⟩

/-- The content of a line is told by its kind. -/
theorem eq_content? (h : Tells line c?) :
    c? = (Line.ofTrimmed (Text.trim line)).content? := by
  have kind : ∀ {k}, Line.HasKind (Text.trim line) k → Line.ofTrimmed (Text.trim line) = k :=
    (Line.ofTrimmed_eq_iff (Text.stops_reverse_trim line)).mpr
  cases h with
  | blank h => rw [kind (.blank h)]; rfl
  | comment h other => rw [kind (.comment h other)]; rfl
  | header h =>
    obtain ⟨-, first, second, hheader, rfl⟩ := h
    rw [kind (.header hheader)]
    rfl
  | sampling h list =>
    rw [kind (.sampling h), Line.content?, listed_of_integers? list]
  | parity h =>
    obtain ⟨-, text, htext, list⟩ := h
    rw [kind (.parity htext), Line.content?, listed_of_integers? list]
  | @unit k h =>
    have list : integers? (Text.trim line) = some ([k] ++ [0]) := h.2
    rw [ofTrimmed_of_integers? list, Line.content?, listed_of_integers? list]
  | longClause _ list =>
    rw [ofTrimmed_of_integers? list, Line.content?, listed_of_integers? list]

/-- A line tells one thing. -/
theorem unique {c?' : Option Content} (h : Tells line c?) (h' : Tells line c?') : c? = c?' :=
  h.eq_content?.trans h'.eq_content?.symm

end Tells

/-! ### One after another -/

section Contents

variable {c? : Option Content} {told : List (Option Content)}

theorem map_statement_cons :
    (c? :: told).reduceOption.map Content.statement =
      (c?.map Content.statement).toList ++ told.reduceOption.map Content.statement := by
  cases c? with
  | none => rfl
  | some c =>
    rw [List.reduceOption_cons_of_some]
    rfl

/-- The contents of a line and of those after it. -/
theorem Content.fitAll_cons_iff :
    FitAll declared (c? :: told).reduceOption ↔ (∀ c ∈ c?, c.Fits declared) ∧
      FitAll (Statement.declaredAfter declared (c?.map statement)) told.reduceOption := by
  cases c? with
  | none => exact (and_iff_right (by simp)).symm
  | some c =>
    rw [List.reduceOption_cons_of_some, FitAll]
    exact and_congr_left' (by simp)

end Contents

/-- Lines are read as their contents, and exactly if these fit what is declared before them. -/
theorem readLines_eq_ok_iff (hd : ∀ n, declared = some n ↔ ∃ l ∈ before, Declares l n)
    (number : Nat) :
    readLines number declared (lines.map some) = .ok sts ↔
      ∃ told, List.Forall₂ Tells lines told ∧ sts = told.reduceOption.map Content.statement ∧
        Content.FitAll declared told.reduceOption := by
  induction lines generalizing before declared number sts with
  | nil =>
    constructor
    · intro h
      cases h
      exact ⟨[], .nil, rfl, trivial⟩
    · rintro ⟨_, _ | _, rfl, -⟩
      rfl
  | cons line lines ih =>
    constructor
    · intro h
      obtain ⟨_, st?, rest, heq, hst, hrest, rfl⟩ := exists_of_readLines_cons h
      obtain rfl := Option.some.inj heq
      have hsays := (Statement.ofLine?_eq_ok_iff hd).mp hst
      obtain ⟨c?, tells, rfl, hfits⟩ := hsays.exists_tells hd
      obtain ⟨told, each, rfl, hall⟩ := (ih (declaredAfter_eq_some_iff hd hsays) _).mp hrest
      exact ⟨c? :: told, .cons tells each, map_statement_cons.symm,
        Content.fitAll_cons_iff.mpr ⟨hfits, hall⟩⟩
    · rintro ⟨_, _ | @⟨_, c?, _, told, tells, each⟩, rfl, hall⟩
      obtain ⟨hfits, hall⟩ := Content.fitAll_cons_iff.mp hall
      have hsays := tells.says_statement hd hfits
      have hrest := (ih (declaredAfter_eq_some_iff hd hsays) (number + 1)).mpr
        ⟨told, each, rfl, hall⟩
      rw [List.map_cons, readLines, (Statement.ofLine?_eq_ok_iff hd).mpr hsays, map_statement_cons]
      dsimp only
      rw [hrest]
      rfl

end Lines

/-! ## Files -/

namespace Content

variable {n : Nat} {cs cs' : List Content} {c : Content}

theorem fits_some_iff : c.Fits (some n) ↔ c.kind ≠ .header ∧ AreLiterals n c.literals := by
  cases c <;> simp [Fits, kind, literals, AreLiterals]

/-- After a header there are no others, and all lists are of its variables. -/
theorem fitAll_some_iff :
    FitAll (some n) cs ↔ ∀ c ∈ cs, c.kind ≠ .header ∧ AreLiterals n c.literals := by
  induction cs with
  | nil => simp [FitAll]
  | cons c cs ih =>
    rw [FitAll, fits_some_iff, List.forall_mem_cons]
    refine and_congr_right fun h => ?_
    have same : Statement.declaredAfter (some n) (some c.statement) = some n := by
      cases c with
      | header m => exact absurd rfl h.1
      | _ => rfl
    rw [same, ih]

/-- What comes first is a header, if there is anything. -/
theorem fitAll_none_iff :
    FitAll none cs ↔ cs = [] ∨ ∃ n rest, cs = .header n :: rest ∧ FitAll (some n) rest := by
  cases cs with
  | nil => simp [FitAll]
  | cons c cs =>
    cases c with
    | header n => simp [FitAll, Fits, statement, Statement.declaredAfter]
    | _ => simp [FitAll, Fits]

/-- What statements are about is told by the contents that they are read of. -/
theorem filterMap_statements {α β : Type} {said : Statement → Option α}
    {read : Content → Option β} {f : β → α}
    (h : ∀ c : Content, said c.statement = (read c).map f) (cs : List Content) :
    (cs.map statement).filterMap said = (cs.filterMap read).map f := by
  rw [List.filterMap_map, List.map_filterMap]
  exact List.filterMap_congr fun c _ => h c

/-- The problem that is put together of contents. -/
theorem ofStatements_statements (n : Nat) (cs : List Content) :
    Problem.ofStatements n (cs.map statement) =
      { varCount := n
        constraints := (cs.filterMap parity?).map parityOf
        units := (cs.filterMap unit?).map unitOf
        sampling := match cs.filterMap sampling? with
          | [] => none
          | lists => some (lists.flatten.map stored)
        skippedClauses := cs.countP fun c => c.kind = .longClause } := by
  rw [Problem.ofStatements, Problem.mk.injEq]
  refine ⟨rfl, ?_, ?_, ?_, ?_⟩
  · exact filterMap_statements (fun c => by cases c <;> rfl) cs
  · exact filterMap_statements (fun c => by cases c <;> rfl) cs
  · have lists : Problem.samplingLists (cs.map statement) =
        (cs.filterMap sampling?).map (·.map stored) :=
      filterMap_statements (fun c => by cases c <;> rfl) cs
    rw [lists]
    cases cs.filterMap sampling? with
    | nil => rfl
    | cons ks lists => exact congrArg some List.map_flatten.symm
  · rw [List.count, List.countP_map]
    exact List.countP_congr fun c _ => by cases c <;> simp [statement, kind]

namespace Rearranges

variable (h : Rearranges cs cs')
include h

theorem mem_iff : c ∈ cs' ↔ c ∈ cs := by
  have same := congrArg (c ∈ ·) (h.filter_eq c.kind)
  simpa using same

/-- The lists after the header are those of the same variables. -/
theorem exists_eq_cons {rest : List Content} (hcs : cs = .header n :: rest)
    (hall : ∀ c ∈ rest, c.kind ≠ .header ∧ AreLiterals n c.literals) :
    ∃ rest', cs' = .header n :: rest' ∧
      ∀ c ∈ rest', c.kind ≠ .header ∧ AreLiterals n c.literals := by
  subst hcs
  obtain ⟨rest', rfl⟩ := List.head?_eq_some_iff.mp h.head?_eq
  have headers := h.filter_eq .header
  rw [List.filter_cons_of_pos (by rfl), List.filter_cons_of_pos (by rfl)] at headers
  -- The header is the only one of its kind, so there is none after it either way.
  have none : rest'.filter (fun c => c.kind = .header) = [] := by
    rw [List.tail_eq_of_cons_eq headers, List.filter_eq_nil_iff]
    exact fun c hc => by simpa using (hall c hc).1
  refine ⟨rest', rfl, fun c hc => ?_⟩
  have hkind : c.kind ≠ .header := by simpa using List.filter_eq_nil_iff.mp none c hc
  rcases List.mem_cons.mp (h.mem_iff.mp (List.mem_cons_of_mem _ hc)) with rfl | hc
  · exact absurd rfl hkind
  · exact hall c hc

/-- What is told of the contents of one kind is told of them in the same order. -/
theorem filterMap_eq {α : Type} {read : Content → Option α} (k : Kind)
    (hk : ∀ c : Content, c.kind ≠ k → read c = none) :
    cs'.filterMap read = cs.filterMap read := by
  have only : ∀ cs : List Content,
      cs.filterMap read = (cs.filter fun c => c.kind = k).filterMap read := by
    intro cs
    rw [List.filterMap_filter]
    refine List.filterMap_congr fun c _ => ?_
    by_cases hc : c.kind = k
    · rw [if_pos (decide_eq_true hc)]
    · rw [if_neg (by simpa using hc), hk c hc]
  rw [only, only cs, h.filter_eq k]

/-- The same problem is put together of rearranged contents. -/
theorem ofStatements_eq (n : Nat) :
    Problem.ofStatements n (cs'.map statement) = Problem.ofStatements n (cs.map statement) := by
  have parities : cs'.filterMap parity? = cs.filterMap parity? :=
    h.filterMap_eq .parity fun c hc => by cases c <;> first | rfl | exact absurd rfl hc
  have units : cs'.filterMap unit? = cs.filterMap unit? :=
    h.filterMap_eq .unit fun c hc => by cases c <;> first | rfl | exact absurd rfl hc
  have lists : cs'.filterMap sampling? = cs.filterMap sampling? :=
    h.filterMap_eq .sampling fun c hc => by cases c <;> first | rfl | exact absurd rfl hc
  rw [ofStatements_statements, ofStatements_statements, parities, units, lists,
    List.countP_eq_length_filter, List.countP_eq_length_filter, h.filter_eq .longClause]

end Rearranges

section Stored

variable {ks : List Int}

/-- Variables that fit are stored as they are, counted from 0. -/
theorem stored_eq (hn : n ≤ Var.modulus) {k : Int} (hk : k ≠ 0 ∧ k.natAbs ≤ n) :
    stored k = k.natAbs - 1 :=
  (stored_eq_iff hk.1).mpr (Nat.le_trans hk.2 hn)

theorem asks_parityOf (hn : n ≤ Var.modulus) (hks : AreLiterals n ks) : Asks ks (parityOf ks) where
  vars_eq := List.map_congr_left fun k hk => stored_eq hn ⟨(hks k hk).1, (hks k hk).2.1⟩
  holds_iff b := by
    have holds := Statement.holds_ofParityLiterals (b := b) hn
      fun k hk => ⟨(hks k hk).1, (hks k hk).2.1⟩
    rwa [Statement.ofParityLiterals_map] at holds
  fresh_eq := rfl

end Stored

/-- The problem that is put together of contents gathers them. -/
theorem gathers_ofStatements (hn : n ≤ Var.modulus) (hheader : cs.filterMap header? = [n])
    (hall : ∀ c ∈ cs, AreLiterals n c.literals) :
    (Problem.ofStatements n (cs.map statement)).Gathers cs := by
  have mem : ∀ {ks : List Int} {k : Int}, k ∈ ks → (∃ c ∈ cs, c.literals = ks) →
      k ≠ 0 ∧ k.natAbs ≤ n := by
    rintro _ k hk ⟨c, hc, rfl⟩
    exact ⟨(hall c hc k hk).1, (hall c hc k hk).2.1⟩
  rw [ofStatements_statements]
  constructor
  case header_eq => exact hheader
  case constraints =>
    refine List.forall₂_map_right_iff.mpr (List.forall₂_same.mpr fun ks hks => ?_)
    obtain ⟨c, hc, h⟩ := List.mem_filterMap.mp hks
    cases c <;> cases h
    exact asks_parityOf hn (hall _ hc)
  case units_eq =>
    refine List.map_congr_left fun k hk => ?_
    obtain ⟨c, hc, h⟩ := List.mem_filterMap.mp hk
    cases c <;> cases h
    rw [unitOf, stored_eq hn (mem (List.mem_singleton_self k) ⟨_, hc, rfl⟩)]
  case skippedClauses_eq => rfl
  case sampling_eq_none_iff =>
    cases cs.filterMap sampling? <;> simp
  case sampling_eq =>
    intro vars hvars
    have lists : vars = (cs.filterMap sampling?).flatten.map stored := by
      cases hlists : cs.filterMap sampling? with
      | nil =>
        simp only [hlists] at hvars
        cases hvars
      | cons ks lists =>
        simp only [hlists] at hvars
        exact (Option.some.inj hvars).symm
    rw [lists]
    refine List.map_congr_left fun k hk => ?_
    obtain ⟨ks, hks, hk⟩ := List.mem_flatten.mp hk
    obtain ⟨c, hc, h⟩ := List.mem_filterMap.mp hks
    cases c <;> cases h
    exact stored_eq hn (mem hk ⟨_, hc, rfl⟩)

end Content

namespace Problem

variable {lines : List (List Char)} {p : Problem}

/-- Lines are a problem exactly if the first content is a header and all others are lists of the
variables that it declares. -/
theorem ofLines_eq_ok_iff :
    ofLines (lines.map some) = .ok p ↔ ∃ told n rest, List.Forall₂ Tells lines told ∧
      told.reduceOption = .header n :: rest ∧
      (∀ c ∈ rest, c.kind ≠ .header ∧ AreLiterals n c.literals) ∧
      p = ofStatements n (told.reduceOption.map Content.statement) := by
  have hd : ∀ n, none = some n ↔ ∃ l ∈ ([] : List (List Char)), Declares l n := by simp
  rw [ofLines, Checked.bind_eq_ok]
  constructor
  · rintro ⟨sts, hread, h⟩
    obtain ⟨told, each, rfl, hall⟩ := (readLines_eq_ok_iff hd 1).mp hread
    rcases Content.fitAll_none_iff.mp hall with hnil | ⟨n, rest, hcs, hrest⟩
    · rw [hnil] at h
      cases h
    · refine ⟨told, n, rest, each, hcs, Content.fitAll_some_iff.mp hrest, ?_⟩
      rw [hcs] at h ⊢
      exact (Except.ok.inj h).symm
  · rintro ⟨told, n, rest, each, hcs, hrest, rfl⟩
    have hall : Content.FitAll none told.reduceOption :=
      Content.fitAll_none_iff.mpr (.inr ⟨n, rest, hcs, Content.fitAll_some_iff.mpr hrest⟩)
    refine ⟨_, (readLines_eq_ok_iff hd 1).mpr ⟨told, each, rfl, hall⟩, ?_⟩
    rw [hcs]
    rfl

/-- A text that is a problem with variables that fit: each line tells one thing, the problem
gathers what they tell, and every text whose lines tell the same of each kind, the header first,
is the same problem. Lines that tell nothing may stand anywhere. -/
theorem ofBytes_gathers {text : String} (h : ofBytes text.toUTF8 = .ok p)
    (hn : p.varCount ≤ Var.modulus) :
    let lines := Text.linesOf '\n' '\r' text.toList
    ∃ told, List.Forall₂ Tells lines told ∧ (∀ told', List.Forall₂ Tells lines told' → told' = told) ∧
      p.Gathers told.reduceOption ∧
      ∀ (text' : String) (told' : List (Option Content)),
        List.Forall₂ Tells (Text.linesOf '\n' '\r' text'.toList) told' →
        Content.Rearranges told.reduceOption told'.reduceOption → ofBytes text'.toUTF8 = .ok p := by
  intro lines
  rw [ofBytes_toUTF8, ofText] at h
  obtain ⟨told, n, rest, each, hcs, hrest, rfl⟩ := ofLines_eq_ok_iff.mp h
  refine ⟨told, each, fun told' each' => ?_, ?_, fun text' told' each' same => ?_⟩
  · have unique : Relator.RightUnique Tells := fun _ _ _ => Tells.unique
    exact List.right_unique_forall₂' unique each' each
  · have others : rest.filterMap Content.header? = [] :=
      List.filterMap_eq_nil_iff.mpr fun c hc => by
        cases c <;> first | rfl | exact absurd rfl (hrest _ hc).1
    have header : told.reduceOption.filterMap Content.header? = [n] := by
      rw [hcs]
      exact congrArg (n :: ·) others
    refine Content.gathers_ofStatements hn header ?_
    rw [hcs]
    exact List.forall_mem_cons.mpr ⟨by simp [Content.literals, AreLiterals], fun c hc => (hrest c hc).2⟩
  · obtain ⟨rest', hcs', hrest'⟩ := same.exists_eq_cons hcs hrest
    rw [ofBytes_toUTF8, ofText, ofLines_eq_ok_iff]
    exact ⟨told', n, rest', each', hcs', hrest', (same.ofStatements_eq n).symm⟩

/-- A file with lines of all kinds. -/
def mixedFile : String :=
  "c all kinds\np cnf 4 5\nx1 -2 0\n3 0\n\nc ind 1 4 0\n1 2 0\nx3 0\nc p show 2 0\n-4 0\n"

/-- What the file is read as. -/
def mixedProblem : Problem where
  varCount := 4
  constraints := [{ vars := [0, 1], rhs := false }, { vars := [2], rhs := true }]
  units := [(2, true), (3, false)]
  sampling := some [0, 3, 1]
  skippedClauses := 1

theorem ofBytes_mixedFile : ofBytes mixedFile.toUTF8 = .ok mixedProblem := by
  have h : ((ofBytes mixedFile.toUTF8).toOption.any fun p => decide (p = mixedProblem)) = true := by
    decide +kernel
  obtain ⟨p, hok, h⟩ := Checked.exists_eq_ok h
  rw [hok, of_decide_eq_true h]

theorem ofBytes_gathers_sample :
    let lines := Text.linesOf '\n' '\r' mixedFile.toList
    ofBytes mixedFile.toUTF8 = .ok mixedProblem ∧ mixedProblem.varCount ≤ Var.modulus ∧
      ∃ told, List.Forall₂ Tells lines told ∧
        (∀ told', List.Forall₂ Tells lines told' → told' = told) ∧
        mixedProblem.Gathers told.reduceOption ∧
        ∀ (text' : String) (told' : List (Option Content)),
          List.Forall₂ Tells (Text.linesOf '\n' '\r' text'.toList) told' →
          Content.Rearranges told.reduceOption told'.reduceOption →
          ofBytes text'.toUTF8 = .ok mixedProblem :=
  ⟨ofBytes_mixedFile, by decide, ofBytes_gathers ofBytes_mixedFile (by decide)⟩

end Problem

end Cnf

end ParityBlocks
