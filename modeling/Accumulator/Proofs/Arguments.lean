import Accumulator.Arguments
import Accumulator.Proofs.Windows
set_option autoImplicit false

/-! # Arguments that are accepted

`Says` tells which lists of arguments may follow a command and what they say: the operands in their
order, and what the options set. An option may stand anywhere before `--`, but only once, and only
if the command is to interpret.

Arguments are sorted and then added to a draft one after the other. A draft that takes them all has
grown by what they say (`Draft.Extends`), one argument at a time (`foldlM_sort_iff`). So arguments
are accepted if and only if they say what the command awaits (`read_eq_assemble_iff`,
`read_eq_interpret_iff`). -/

namespace Accumulator

namespace Arguments

/-! ## What arguments say -/

/-- An argument that is no option: it does not open with a dash, or it is a lone one. -/
def Plain (argument : String) : Prop := argument.toList.head? ≠ some '-' ∨ argument = "-"

/-- What the arguments after a command say: the operands, the number of cells if it is given, and
    whether a stream with a rest is to be refused. -/
inductive Says (command : Command) : List String → List String → Option Nat → Bool → Prop
  | nil : Says command [] [] none false
  /-- After `--` everything is an operand. -/
  | escaped (operands : List String) : Says command ("--" :: operands) operands none false
  | operand {text : String} {rest operands : List String} {size : Option Nat} {strict : Bool} :
      Plain text → Says command rest operands size strict →
      Says command (text :: rest) (text :: operands) size strict
  | strict {rest operands : List String} {size : Option Nat} : command = .interpret →
      Says command rest operands size false →
      Says command ("--strict" :: rest) operands size true
  | memorySize {text : String} {size : Nat} {rest operands : List String} {strict : Bool} :
      command = .interpret → Plain text → size? text = some size →
      Says command rest operands none strict →
      Says command ("--memory-size" :: text :: rest) operands (some size) strict
  | attachedSize {text : String} {size : Nat} {rest operands : List String} {strict : Bool} :
      command = .interpret → size? text = some size → Says command rest operands none strict →
      Says command (("--memory-size=" ++ text) :: rest) operands (some size) strict

/-- Operands of awaited kinds, with what is read of them and with the kinds that are still awaited
    after them. -/
inductive Fits : List Kind → List String → List Value → List Kind → Prop
  | nil (awaited : List Kind) : Fits awaited [] [] awaited
  | cons {kind : Kind} {awaited left : List Kind} {text : String} {texts : List String}
      {value : Value} {values : List Value} : kind.read text = some value →
      Fits awaited texts values left →
      Fits (kind :: awaited) (text :: texts) (value :: values) left

/-- A draft has grown by operands and by what options set. -/
structure Draft.Extends (d : Draft) (operands : List String) (size : Option Nat) (strict : Bool)
    (after : Draft) : Prop where
  fits : ∃ values, Fits d.awaited operands values after.awaited ∧
    after.values = d.values ++ values
  size_eq : (d.memorySize = none ∨ size = none) ∧ after.memorySize = d.memorySize.or size
  strict_eq : (d.strict = false ∨ strict = false) ∧ after.strict = (d.strict || strict)

/-! ## Sorting -/

theorem opensWith_iff {lead argument : String} :
    opensWith lead argument = true ↔ ∃ rest, argument = lead ++ rest := by
  rw [opensWith, List.isPrefixOf_iff_prefix]
  constructor
  · rintro ⟨rest, hrest⟩
    refine ⟨String.ofList rest, ?_⟩
    rw [← String.toList_inj]
    simp [hrest]
  · rintro ⟨rest, rfl⟩
    exact ⟨rest.toList, by simp⟩

theorem isOption_eq_false_iff {argument : String} : isOption argument = false ↔ Plain argument := by
  have hdash : opensWith "-" argument = true ↔ argument.toList.head? = some '-' := by
    rw [opensWith_iff, List.head?_eq_some_iff]
    constructor
    · rintro ⟨rest, rfl⟩
      exact ⟨rest.toList, by simp⟩
    · rintro ⟨rest, hrest⟩
      refine ⟨String.ofList rest, ?_⟩
      rw [← String.toList_inj, hrest]
      simp
  rw [isOption, Bool.and_eq_false_iff, ← Bool.not_eq_true, hdash, Plain]
  simp

theorem attachedSize?_eq_some_iff {argument text : String} :
    attachedSize? argument = some text ↔ argument = "--memory-size=" ++ text := by
  have hdrop (rest : String) :
      String.ofList ((sizeLead ++ rest).toList.drop sizeLead.length) = rest := by
    rw [String.toList_append, ← String.length_toList, List.drop_left, String.ofList_toList]
  rw [attachedSize?, Option.ite_none_right_eq_some, opensWith_iff]
  constructor
  · rintro ⟨⟨rest, rfl⟩, htext⟩
    rw [hdrop] at htext
    rw [Option.some.inj htext, sizeLead]
  · rintro rfl
    exact ⟨⟨text, rfl⟩, congrArg some (hdrop text)⟩

/-- How one argument may be sorted. -/
inductive SortsAs (command : Command) (argument : String) : Argument → Prop
  | operand : Plain argument → SortsAs command argument (.operand argument)
  | strict : command = .interpret → argument = "--strict" → SortsAs command argument .strict
  | memorySize {text : String} : command = .interpret → argument = "--memory-size=" ++ text →
      SortsAs command argument (.memorySize text)
  | help : SortsAs command argument .help
  | refused (why : UsageError) : SortsAs command argument (.refused why)

theorem sortsAs_sortOne (command : Command) (argument : String) :
    SortsAs command argument (sortOne command argument) := by
  rw [sortOne]
  split
  · next hplain => exact .operand (isOption_eq_false_iff.1 (by simpa using hplain))
  · split
    · exact .help
    · split
      · next hcommand =>
        split
        · next hstrict => exact .strict hcommand hstrict
        · split
          · next hsize => exact .memorySize hcommand (attachedSize?_eq_some_iff.1 hsize)
          · exact .refused _
      · exact .refused _

theorem sort_plain {argument : String} (h : Plain argument) (command : Command)
    (rest : List String) :
    sort command false (argument :: rest) = .operand argument :: sort command false rest := by
  rw [← isOption_eq_false_iff] at h
  have hescape : argument ≠ "--" := by
    rintro rfl
    exact absurd h (by decide)
  have hname : argument ≠ memorySizeName := by
    rintro rfl
    exact absurd h (by decide)
  simp [sort, sortOne, hescape, hname, h]

theorem sort_escaped (command : Command) (rest : List String) :
    sort command false ("--" :: rest) = rest.map .operand := by
  simp [sort]

theorem sort_strict (rest : List String) :
    sort .interpret false ("--strict" :: rest) = .strict :: sort .interpret false rest := by
  have hsorted : sortOne .interpret "--strict" = .strict := by decide
  simp [sort, memorySizeName, hsorted]

theorem sort_memorySize {text : String} (h : Plain text) (rest : List String) :
    sort .interpret false ("--memory-size" :: text :: rest) =
      .memorySize text :: sort .interpret false rest := by
  simp [sort, memorySizeName, isOption_eq_false_iff.2 h]

theorem sort_attachedSize (text : String) (rest : List String) :
    sort .interpret false (("--memory-size=" ++ text) :: rest) =
      .memorySize text :: sort .interpret false rest := by
  have hplain : ¬ Plain ("--memory-size=" ++ text) := by simp [Plain, ← String.toList_inj]
  have hoption : isOption ("--memory-size=" ++ text) = true := by
    rwa [← isOption_eq_false_iff, Bool.not_eq_false] at hplain
  have hhelp : asksHelp ("--memory-size=" ++ text) = false := by
    simp [asksHelp, opensWith, List.isPrefixOf, ← String.toList_inj]
  have hsize := attachedSize?_eq_some_iff.2 (rfl : "--memory-size=" ++ text = _)
  have hsorted : sortOne .interpret ("--memory-size=" ++ text) = .memorySize text := by
    simp [sortOne, hoption, hhelp, hsize, strictName, ← String.toList_inj]
  have hescape : "--memory-size=" ++ text ≠ "--" := by simp [← String.toList_inj]
  have hname : "--memory-size=" ++ text ≠ memorySizeName := by
    simp [memorySizeName, ← String.toList_inj]
  simp [sort, hescape, hname, hsorted]

/-! ## Adding to a draft -/

namespace Draft

variable {d after : Draft} {operands : List String} {size : Option Nat} {strict : Bool}

theorem extends_nil_iff : d.Extends [] none false after ↔ after = d := by
  constructor
  · rintro ⟨⟨values, hfits, hvalues⟩, hsize, hstrict⟩
    obtain ⟨awaited, before, memorySize, settled⟩ := d
    obtain ⟨left, later, _, _⟩ := after
    cases hfits
    simp_all
  · rintro rfl
    exact ⟨⟨[], .nil _, by simp⟩, by simp, by simp⟩

theorem extends_operand_iff {text : String} :
    d.Extends (text :: operands) size strict after ↔
      ∃ next, d.add (.operand text) = .ok next ∧ next.Extends operands size strict after := by
  obtain ⟨awaited, before, memorySize, settled⟩ := d
  constructor
  · rintro ⟨⟨values, hfits, hvalues⟩, hsize, hstrict⟩
    cases hfits with
    | @cons kind awaited _ _ _ value values hread hfits =>
      refine ⟨⟨awaited, before ++ [value], memorySize, settled⟩, by simp [add, hread], ?_⟩
      exact ⟨⟨values, hfits, by simp [hvalues]⟩, hsize, hstrict⟩
  · rintro ⟨next, hadd, ⟨values, hfits, hvalues⟩, hsize, hstrict⟩
    cases awaited with
    | nil => simp [add] at hadd
    | cons kind awaited =>
      cases hread : kind.read text with
      | none => simp [add, hread] at hadd
      | some value =>
        simp only [add, hread, Except.ok.injEq] at hadd
        subst hadd
        exact ⟨⟨value :: values, .cons hread hfits, by simp [hvalues]⟩, hsize, hstrict⟩

theorem extends_strict_iff :
    strict = false ∧ d.Extends operands size true after ↔
      ∃ next, d.add .strict = .ok next ∧ next.Extends operands size strict after := by
  obtain ⟨awaited, before, memorySize, settled⟩ := d
  constructor
  · rintro ⟨rfl, hfits, hsize, hstrict⟩
    obtain rfl : settled = false := by simpa using hstrict.1
    exact ⟨⟨awaited, before, memorySize, true⟩, by simp [add], hfits, hsize, by simpa using hstrict⟩
  · rintro ⟨next, hadd, hfits, hsize, hstrict⟩
    cases settled with
    | true => simp [add] at hadd
    | false =>
      simp only [add, Bool.false_eq_true, if_false, Except.ok.injEq] at hadd
      subst hadd
      obtain rfl : strict = false := by simpa using hstrict.1
      exact ⟨rfl, hfits, hsize, by simpa using hstrict⟩

theorem extends_memorySize_iff {text : String} :
    (∃ n, size? text = some n ∧ size = none ∧ d.Extends operands (some n) strict after) ↔
      ∃ next, d.add (.memorySize text) = .ok next ∧ next.Extends operands size strict after := by
  obtain ⟨awaited, before, memorySize, settled⟩ := d
  constructor
  · rintro ⟨n, hn, rfl, hfits, hsize, hstrict⟩
    obtain rfl : memorySize = none := by simpa using hsize.1
    exact ⟨⟨awaited, before, some n, settled⟩, by simp [add, hn], hfits, by simpa using hsize,
      hstrict⟩
  · rintro ⟨next, hadd, hfits, hsize, hstrict⟩
    cases memorySize with
    | some _ => simp [add] at hadd
    | none =>
      cases hn : size? text with
      | none => simp [add, hn] at hadd
      | some n =>
        simp only [add, hn, Except.ok.injEq] at hadd
        subst hadd
        obtain rfl : size = none := by simpa using hsize.1
        exact ⟨n, rfl, rfl, hfits, by simpa using hsize, hstrict⟩

theorem foldlM_add_cons_iff {argument : Argument} {rest : List Argument} :
    (argument :: rest).foldlM add d = .ok after ↔
      ∃ next, d.add argument = .ok next ∧ rest.foldlM add next = .ok after := by
  rw [List.foldlM_cons]
  cases d.add argument with
  | error why => simp [bind, Except.bind]
  | ok next => simp [bind, Except.bind]

theorem foldlM_add_operands_iff :
    (operands.map .operand).foldlM add d = .ok after ↔ d.Extends operands none false after := by
  induction operands generalizing d with
  | nil =>
    rw [extends_nil_iff, List.map_nil, List.foldlM_nil]
    exact (Except.ok.injEq ..).to_iff.trans eq_comm
  | cons text operands ih =>
    rw [List.map_cons, foldlM_add_cons_iff, extends_operand_iff]
    simp only [ih]

end Draft

/-! ## Arguments that are taken -/

/-- Arguments that follow a command are taken as what they say. -/
theorem foldlM_sort_of_says {command : Command} {arguments operands : List String}
    {size : Option Nat} {strict : Bool} (h : Says command arguments operands size strict)
    {d after : Draft} (hextends : d.Extends operands size strict after) :
    (sort command false arguments).foldlM Draft.add d = .ok after := by
  induction h generalizing d with
  | nil => rw [Draft.extends_nil_iff.1 hextends]; rfl
  | escaped operands =>
    rw [sort_escaped]
    exact Draft.foldlM_add_operands_iff.2 hextends
  | operand hplain _ ih =>
    rw [sort_plain hplain, Draft.foldlM_add_cons_iff]
    obtain ⟨next, hadd, hnext⟩ := Draft.extends_operand_iff.1 hextends
    exact ⟨next, hadd, ih hnext⟩
  | strict hcommand _ ih =>
    subst hcommand
    rw [sort_strict, Draft.foldlM_add_cons_iff]
    obtain ⟨next, hadd, hnext⟩ := Draft.extends_strict_iff.1 ⟨rfl, hextends⟩
    exact ⟨next, hadd, ih hnext⟩
  | memorySize hcommand hplain hsize _ ih =>
    subst hcommand
    rw [sort_memorySize hplain, Draft.foldlM_add_cons_iff]
    obtain ⟨next, hadd, hnext⟩ := Draft.extends_memorySize_iff.1 ⟨_, hsize, rfl, hextends⟩
    exact ⟨next, hadd, ih hnext⟩
  | attachedSize hcommand hsize _ ih =>
    subst hcommand
    rw [sort_attachedSize, Draft.foldlM_add_cons_iff]
    obtain ⟨next, hadd, hnext⟩ := Draft.extends_memorySize_iff.1 ⟨_, hsize, rfl, hextends⟩
    exact ⟨next, hadd, ih hnext⟩

/-- An argument that is added in front of others says one thing more than they do. -/
theorem exists_says_cons {command : Command} {argument : String} {sorted : Argument}
    {rest operands : List String} {size : Option Nat} {strict : Bool} {d next after : Draft}
    (hsorts : SortsAs command argument sorted) (hadd : d.add sorted = .ok next)
    (hsaid : Says command rest operands size strict)
    (hextends : next.Extends operands size strict after) :
    ∃ operands size strict, Says command (argument :: rest) operands size strict ∧
      d.Extends operands size strict after := by
  cases hsorts with
  | operand hplain =>
    have hd := Draft.extends_operand_iff.2 ⟨next, hadd, hextends⟩
    exact ⟨argument :: operands, size, strict, .operand hplain hsaid, hd⟩
  | strict hcommand hargument =>
    subst hargument
    obtain ⟨rfl, hd⟩ := Draft.extends_strict_iff.2 ⟨next, hadd, hextends⟩
    exact ⟨operands, size, true, .strict hcommand hsaid, hd⟩
  | memorySize hcommand hargument =>
    subst hargument
    obtain ⟨n, hn, rfl, hd⟩ := Draft.extends_memorySize_iff.2 ⟨next, hadd, hextends⟩
    exact ⟨operands, some n, strict, .attachedSize hcommand hn hsaid, hd⟩
  | help => simp [Draft.add] at hadd
  | refused => simp [Draft.add] at hadd

/-- Arguments that are taken say something. While `pending` holds, `--memory-size` stands in front
    of them. -/
theorem says_of_foldlM_sort {command : Command} {arguments : List String} {pending : Bool}
    {d after : Draft} (hpending : pending = true → command = .interpret)
    (h : (sort command pending arguments).foldlM Draft.add d = .ok after) :
    ∃ operands size strict,
      Says command (if pending then "--memory-size" :: arguments else arguments) operands size
        strict ∧ d.Extends operands size strict after := by
  -- the option and its value are two arguments, so the induction must hold between them too
  induction arguments generalizing pending d with
  | nil =>
    cases pending with
    | true => simp [sort, Draft.add] at h
    | false => exact ⟨[], none, false, .nil, Draft.extends_nil_iff.2 (Except.ok.inj h).symm⟩
  | cons argument rest ih =>
    rw [sort] at h
    cases pending with
    | true =>
      rw [if_pos rfl] at h
      split at h
      · simp [Draft.add] at h
      · next hplain =>
        rw [Draft.foldlM_add_cons_iff] at h
        obtain ⟨next, hadd, hrest⟩ := h
        obtain ⟨operands, size, strict, hsaid, hextends⟩ := ih (by simp) hrest
        obtain ⟨n, hn, rfl, hd⟩ := Draft.extends_memorySize_iff.2 ⟨next, hadd, hextends⟩
        have hargument : Plain argument := isOption_eq_false_iff.1 (by simpa using hplain)
        exact ⟨operands, some n, strict, .memorySize (hpending rfl) hargument hn hsaid, hd⟩
    | false =>
      rw [if_neg (by simp)] at h
      split at h
      · next hescape =>
        subst hescape
        exact ⟨rest, none, false, .escaped rest, Draft.foldlM_add_operands_iff.1 h⟩
      · split at h
        · next hname =>
          obtain ⟨hcommand, rfl⟩ := hname
          exact ih (fun _ => hcommand) h
        · rw [Draft.foldlM_add_cons_iff] at h
          obtain ⟨next, hadd, hrest⟩ := h
          obtain ⟨operands, size, strict, hsaid, hextends⟩ := ih (by simp) hrest
          exact exists_says_cons (sortsAs_sortOne command argument) hadd hsaid hextends

/-- What a draft has become after the arguments that follow a command. -/
theorem foldlM_sort_iff {command : Command} {arguments : List String} {d after : Draft} :
    (sort command false arguments).foldlM Draft.add d = .ok after ↔
      ∃ operands size strict, Says command arguments operands size strict ∧
        d.Extends operands size strict after := by
  constructor
  · exact says_of_foldlM_sort (by simp)
  · rintro ⟨operands, size, strict, hsaid, hextends⟩
    exact foldlM_sort_of_says hsaid hextends

/-! ## Requests -/

theorem read_path_eq_some_iff {text : String} {value : Value} :
    Kind.path.read text = some value ↔ text ≠ "" ∧ value = .path text := by
  rw [Kind.read, Option.ite_none_left_eq_some]
  simp [eq_comm]

theorem read_window_eq_some_iff {text : String} {value : Value} :
    Kind.window.read text = some value ↔ ∃ w, Window.parse text = .ok w ∧ value = .window w := by
  rw [Kind.read]
  cases Window.parse text with
  | error e => simp [Except.toOption]
  | ok w => simp [Except.toOption, eq_comm]

theorem fits_nil_iff {awaited left : List Kind} {texts : List String} :
    Fits awaited texts [] left ↔ texts = [] ∧ awaited = left := by
  constructor
  · intro h
    cases h
    exact ⟨rfl, rfl⟩
  · rintro ⟨rfl, rfl⟩
    exact .nil awaited

theorem fits_cons_iff {kind : Kind} {awaited left : List Kind} {texts : List String} {value : Value}
    {values : List Value} :
    Fits (kind :: awaited) texts (value :: values) left ↔
      ∃ text later, texts = text :: later ∧ kind.read text = some value ∧
        Fits awaited later values left := by
  constructor
  · intro h
    cases h with
    | cons hread hfits => exact ⟨_, _, rfl, hread, hfits⟩
  · rintro ⟨text, later, rfl, hread, hfits⟩
    exact .cons hread hfits

theorem fits_assemble_iff {texts : List String} {left : List Kind} {source binary log : String} :
    Fits Command.assemble.operands texts [.path source, .path binary, .path log] left ↔
      texts = [source, binary, log] ∧ left = [] ∧ source ≠ "" ∧ binary ≠ "" ∧ log ≠ "" := by
  simp only [Command.operands, fits_cons_iff, fits_nil_iff, read_path_eq_some_iff,
    Value.path.injEq]
  constructor
  · rintro ⟨_, _, rfl, ⟨hsource, rfl⟩, _, _, rfl, ⟨hbinary, rfl⟩, _, _, rfl, ⟨hlog, rfl⟩, rfl, rfl⟩
    exact ⟨rfl, rfl, hsource, hbinary, hlog⟩
  · rintro ⟨rfl, rfl, hsource, hbinary, hlog⟩
    exact ⟨_, _, rfl, ⟨hsource, rfl⟩, _, _, rfl, ⟨hbinary, rfl⟩, _, _, rfl, ⟨hlog, rfl⟩, rfl, rfl⟩

theorem fits_interpret_iff {texts : List String} {left : List Kind} {binary result : String}
    {w : Window} :
    Fits Command.interpret.operands texts [.path binary, .path result, .window w] left ↔
      ∃ text, texts = [binary, result, text] ∧ left = [] ∧ binary ≠ "" ∧ result ≠ "" ∧
        Window.parse text = .ok w := by
  simp only [Command.operands, fits_cons_iff, fits_nil_iff, read_path_eq_some_iff,
    read_window_eq_some_iff, Value.path.injEq, Value.window.injEq]
  constructor
  · rintro ⟨_, _, rfl, ⟨hbinary, rfl⟩, _, _, rfl, ⟨hresult, rfl⟩, text, _, rfl, ⟨_, hw, rfl⟩, rfl,
      rfl⟩
    exact ⟨text, rfl, rfl, hbinary, hresult, hw⟩
  · rintro ⟨text, rfl, rfl, hbinary, hresult, hw⟩
    exact ⟨_, _, rfl, ⟨hbinary, rfl⟩, _, _, rfl, ⟨hresult, rfl⟩, text, _, rfl, ⟨w, hw, rfl⟩, rfl,
      rfl⟩

/-- Only interpreting has options. -/
theorem Says.eq_none {arguments operands : List String} {size : Option Nat} {strict : Bool}
    (h : Says .assemble arguments operands size strict) : size = none ∧ strict = false := by
  induction h with
  | nil => exact ⟨rfl, rfl⟩
  | escaped => exact ⟨rfl, rfl⟩
  | operand _ _ ih => exact ih
  | strict hcommand => simp at hcommand
  | memorySize hcommand => simp at hcommand
  | attachedSize hcommand => simp at hcommand

theorem Draft.finish_eq_assemble_iff {d : Draft} {command : Command} {source binary log : String} :
    d.finish command = .ok (.assemble source binary log) ↔
      command = .assemble ∧ d.values = [.path source, .path binary, .path log] := by
  unfold finish
  split <;> simp_all

theorem Draft.finish_eq_interpret_iff {d : Draft} {command : Command} {binary result : String}
    {w : Window} {config : Config} :
    d.finish command = .ok (.interpret binary result w config) ↔
      command = .interpret ∧ d.values = [.path binary, .path result, .window w] ∧
        d.config = config := by
  unfold finish
  split <;> simp_all [and_assoc]

theorem Draft.extends_start_iff {awaited left : List Kind} {operands : List String}
    {values : List Value} {size memorySize : Option Nat} {strict settled : Bool} :
    Draft.Extends ⟨awaited, [], none, false⟩ operands size strict
        ⟨left, values, memorySize, settled⟩ ↔
      Fits awaited operands values left ∧ memorySize = size ∧ settled = strict := by
  constructor
  · rintro ⟨⟨found, hfits, hvalues⟩, hsize, hstrict⟩
    obtain rfl : values = found := hvalues
    exact ⟨hfits, by simpa using hsize, by simpa using hstrict⟩
  · rintro ⟨hfits, rfl, rfl⟩
    exact ⟨⟨values, hfits, rfl⟩, by simp, by simp⟩

theorem readCommand_eq_ok_iff {command : Command} {arguments : List String} {request : Request} :
    readCommand command arguments = .ok request ↔
      ∃ operands size strict, Says command arguments operands size strict ∧
        ∃ values left, Fits command.operands operands values left ∧
          Draft.finish ⟨left, values, size, strict⟩ command = .ok request := by
  rw [readCommand]
  constructor
  · intro h
    cases hdraft : (sort command false arguments).foldlM Draft.add
        ⟨command.operands, [], none, false⟩ with
    | error why => simp [hdraft, bind, Except.bind] at h
    | ok draft =>
      obtain ⟨left, values, memorySize, settled⟩ := draft
      simp only [hdraft, bind, Except.bind] at h
      obtain ⟨operands, size, strict, hsaid, hextends⟩ := foldlM_sort_iff.1 hdraft
      obtain ⟨hfits, rfl, rfl⟩ := Draft.extends_start_iff.1 hextends
      exact ⟨operands, _, _, hsaid, values, left, hfits, h⟩
  · rintro ⟨operands, size, strict, hsaid, values, left, hfits, hfinish⟩
    have hdraft := foldlM_sort_of_says hsaid (Draft.extends_start_iff.2 ⟨hfits, rfl, rfl⟩)
    simp only [hdraft, bind, Except.bind]
    exact hfinish

theorem settle_eq_ok_iff {answer : Except Stop Request} {request : Request}
    (h : request ≠ .help) : settle answer = .ok request ↔ answer = .ok request := by
  rcases answer with (_ | why) | found
  · simp [settle, h.symm]
  · simp [settle]
  · simp [settle]

theorem eq_help_of_readHelp {topics : List String} {request : Request}
    (h : readHelp topics = .ok request) : request = .help := by
  unfold readHelp at h
  split at h
  · exact (Except.ok.inj h).symm
  · split at h
    · exact (Except.ok.inj h).symm
    · simp at h
  · simp at h

/-- Requests that are not answered with a text are those of a command. -/
theorem read_eq_ok_iff {arguments : List String} {request : Request} (hhelp : request ≠ .help)
    (hversion : request ≠ .version) :
    read arguments = .ok request ↔ ∃ rest,
      (arguments = "assemble" :: rest ∧ readCommand .assemble rest = .ok request) ∨
        (arguments = "interpret" :: rest ∧ readCommand .interpret rest = .ok request) := by
  unfold read
  cases arguments with
  | nil => simp
  | cons first rest =>
    simp only [List.cons.injEq]
    split
    · next hfirst => simp [hfirst, settle_eq_ok_iff hhelp]
    · next hassemble =>
      split
      · next hfirst => simp [hfirst, settle_eq_ok_iff hhelp]
      · next hinterpret =>
        refine iff_of_false ?_ (by simp [hassemble, hinterpret])
        intro h
        split at h
        · exact hhelp (eq_help_of_readHelp h)
        · split at h
          · exact hversion (Except.ok.inj h).symm
          · split at h
            · exact hhelp (Except.ok.inj h).symm
            · simp at h

/-- **Arguments that ask for assembling.** Three operands follow the command, and none of them is
    empty. -/
theorem read_eq_assemble_iff {arguments : List String} {source binary log : String} :
    read arguments = .ok (.assemble source binary log) ↔
      ∃ rest, arguments = "assemble" :: rest ∧
        Says .assemble rest [source, binary, log] none false ∧
        source ≠ "" ∧ binary ≠ "" ∧ log ≠ "" := by
  rw [read_eq_ok_iff (by simp) (by simp)]
  simp only [readCommand_eq_ok_iff, Draft.finish_eq_assemble_iff]
  refine exists_congr fun rest => ?_
  constructor
  · rintro (⟨rfl, _, _, _, hsaid, _, _, hfits, -, rfl⟩ | ⟨-, _, _, _, -, _, _, -, hcommand, -⟩)
    · obtain ⟨rfl, rfl⟩ := hsaid.eq_none
      obtain ⟨rfl, -, hpaths⟩ := fits_assemble_iff.1 hfits
      exact ⟨rfl, hsaid, hpaths⟩
    · simp at hcommand
  · rintro ⟨rfl, hsaid, hpaths⟩
    exact .inl ⟨rfl, _, _, _, hsaid, _, [], fits_assemble_iff.2 ⟨rfl, rfl, hpaths⟩, trivial,
      rfl⟩

/-- **Arguments that ask for interpreting.** Three operands follow the command: two paths that are
    not empty, and a window. What no option sets is as in a machine that is set up without any. -/
theorem read_eq_interpret_iff {arguments : List String} {binary result : String} {w : Window}
    {config : Config} :
    read arguments = .ok (.interpret binary result w config) ↔
      ∃ rest text size strict, arguments = "interpret" :: rest ∧
        Says .interpret rest [binary, result, text] size strict ∧
        binary ≠ "" ∧ result ≠ "" ∧ Window.parse text = .ok w ∧
        config = ⟨size.getD 1024, if strict then .strict else .silent⟩ := by
  rw [read_eq_ok_iff (by simp) (by simp)]
  simp only [readCommand_eq_ok_iff, Draft.finish_eq_interpret_iff]
  constructor
  · rintro ⟨rest, ⟨-, _, _, _, -, _, _, -, hcommand, -⟩ |
      ⟨rfl, _, size, strict, hsaid, _, _, hfits, -, rfl, rfl⟩⟩
    · simp at hcommand
    · obtain ⟨text, rfl, -, hbinary, hresult, hw⟩ := fits_interpret_iff.1 hfits
      refine ⟨rest, text, size, strict, rfl, hsaid, hbinary, hresult, hw, ?_⟩
      cases size <;> rfl
  · rintro ⟨rest, text, size, strict, rfl, hsaid, hbinary, hresult, hw, rfl⟩
    refine ⟨rest, .inr ⟨rfl, _, _, _, hsaid, _, [],
      fits_interpret_iff.2 ⟨text, rfl, rfl, hbinary, hresult, hw⟩, trivial, rfl, ?_⟩⟩
    cases size <;> rfl

/-! ## Arguments for a request -/

theorem size?_eq_some_iff {text : String} {n : Nat} :
    size? text = some n ↔ ∃ digits, (text.toList = digits ∨ text.toList = '+' :: digits) ∧
      Text.Digits digits n ∧ n < 2 ^ 64 := by
  have hword (digits : List Char) : (Text.word64? digits).map UInt64.toNat = some n ↔
      Text.Digits digits n ∧ n < 2 ^ 64 := by
    rw [Option.map_eq_some_iff]
    constructor
    · rintro ⟨w, hw, rfl⟩
      exact ⟨Window.word64?_eq_some_iff_digits.1 hw, w.toNat_lt⟩
    · rintro ⟨hdigits, hlt⟩
      have hn : (UInt64.ofNat n).toNat = n := UInt64.toNat_ofNat_of_lt' hlt
      exact ⟨UInt64.ofNat n, Window.word64?_eq_some_iff_digits.2 (hn.symm ▸ hdigits), hn⟩
  unfold size?
  split
  · next digits htext =>
    rw [hword]
    constructor
    · intro h
      exact ⟨digits, .inr htext, h⟩
    · rintro ⟨other, hother | hother, h⟩
      · have hmem : '+' ∈ other := by simp [← hother, htext]
        exact absurd hmem (h.1.not_mem (by decide))
      · rw [htext, List.cons.injEq] at hother
        rwa [hother.2]
  · next hsign =>
    rw [hword]
    constructor
    · intro h
      exact ⟨_, .inl rfl, h⟩
    · rintro ⟨other, hother | hother, h⟩
      · rwa [hother]
      · exact absurd hother (hsign other)

theorem size?_repr {n : Nat} (h : n < 2 ^ 64) : size? n.repr = some n :=
  size?_eq_some_iff.2 ⟨_, .inl rfl, Text.digits_repr n, h⟩

theorem plain_repr (n : Nat) : Plain n.repr := .inl ((Text.digits_repr n).head?_ne (by decide))

/-- Operands that do not look like options ask for assembling, if they are not empty. -/
theorem read_assemble {source binary log : String}
    (hplain : Plain source ∧ Plain binary ∧ Plain log)
    (hpaths : source ≠ "" ∧ binary ≠ "" ∧ log ≠ "") :
    read ["assemble", source, binary, log] = .ok (.assemble source binary log) := by
  obtain ⟨hsource, hbinary, hlog⟩ := hplain
  have hsaid : Says .assemble [source, binary, log] [source, binary, log] none false :=
    .operand hsource (.operand hbinary (.operand hlog .nil))
  exact read_eq_assemble_iff.2 ⟨_, rfl, hsaid, hpaths⟩

/-- Interpreting can be asked for whatever the paths, the window and the number of cells are. -/
theorem exists_read_interpret {binary result : String} (hbinary : binary ≠ "")
    (hresult : result ≠ "") (w : Window) {config : Config} (hsize : config.memorySize < 2 ^ 64) :
    ∃ arguments, read arguments = .ok (.interpret binary result w config) := by
  obtain ⟨size, truncation⟩ := config
  have hwindow : Window.parse w.render = .ok w :=
    Window.parse_eq_ok_iff.2 (by simpa using w.written_render Text.blanks_nil Text.blanks_nil)
  have hcells : Says .interpret
      ["--memory-size", size.repr, "--", binary, result, w.render]
      [binary, result, w.render] (some size) false :=
    .memorySize rfl (plain_repr size) (size?_repr hsize) (.escaped _)
  cases truncation with
  | silent =>
    exact ⟨_, read_eq_interpret_iff.2 ⟨_, _, _, _, rfl, hcells, hbinary, hresult, hwindow, rfl⟩⟩
  | strict =>
    exact ⟨_, read_eq_interpret_iff.2
      ⟨_, _, _, _, rfl, .strict rfl hcells, hbinary, hresult, hwindow, rfl⟩⟩

end Arguments

end Accumulator
