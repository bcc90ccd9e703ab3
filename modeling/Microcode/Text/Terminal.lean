namespace Microcode.Terminal

def isLayout (c : Char) : Bool :=
  c == '\t' || c == '\n' || c == '\x0c' || c == '\r'

def isVisible (c : Char) : Bool :=
  isLayout c || (' ' ≤ c && c != '\x7f')

inductive Mode where
  | text
  | escape
  | intermediate
  | control
  | device
  | deviceParameters
  | deviceIntermediate
  | string
  | command
  deriving DecidableEq, Inhabited

-- The byte that terminates a string may be any but the first one of a character.
def terminatesString (c : Char) : Bool :=
  (String.utf8EncodeChar c).contains 0x9c

def isBetween (low high c : Char) : Bool :=
  low ≤ c && c ≤ high

namespace Mode

-- An escape begins a new sequence and two controls cancel one, wherever they
-- come. Characters that mean nothing to a sequence leave it as it is.
def next (m : Mode) (c : Char) : Mode :=
  if c = '\x1b' then .escape
  else if c = '\x18' ∨ c = '\x1a' then .text
  else match m with
  | .text => .text
  | .escape =>
    if isBetween ' ' '/' c then .intermediate
    else if c = '[' then .control
    else if c = ']' then .command
    else if c = 'P' then .device
    else if c = 'X' ∨ c = '^' ∨ c = '_' then .string
    else if isBetween '0' '~' c then .text
    else .escape
  | .intermediate => if isBetween '0' '~' c then .text else .intermediate
  | .control => if isBetween '@' '~' c then .text else .control
  | .device =>
    if isBetween ' ' '/' c then .deviceIntermediate
    else if isBetween '0' '?' c then .deviceParameters
    else if isBetween '@' '~' c then .string
    else .device
  | .deviceParameters =>
    if isBetween ' ' '/' c then .deviceIntermediate
    else if isBetween '<' '~' c then .string
    else .deviceParameters
  | .deviceIntermediate => if isBetween '0' '~' c then .string else .deviceIntermediate
  | .string => if terminatesString c then .text else .string
  | .command => if c = '\x07' then .text else .command

def shows (m : Mode) (c : Char) : Bool :=
  match m with
  | .text => isVisible c
  | .escape | .intermediate | .control => isLayout c
  | _ => false

end Mode

-- `showing` tells whether the last character was shown, and `shown` holds all
-- that were, the latest first.
structure Reader where
  mode : Mode := .text
  showing : Bool := false
  shown : List Char := []
  deriving DecidableEq

namespace Reader

-- Once layout has come through, the text behind it does as well. A control takes
-- the sequence up again, unless a character beyond ASCII has ended it.
def read (r : Reader) (c : Char) : Reader :=
  if r.showing && isVisible c then
    { r with mode := if c.toNat < 0x80 then r.mode else .text, shown := c :: r.shown }
  else if r.mode.shows c then
    { mode := r.mode.next c, showing := true, shown := c :: r.shown }
  else { mode := r.mode.next c, showing := false, shown := r.shown }

def readAll (r : Reader) (text : List Char) : Reader :=
  text.foldl read r

end Reader

def visible (text : List Char) : List Char :=
  (Reader.readAll {} text).shown.reverse

def plain (text : String) : String :=
  String.ofList (visible text.toList)

def strong : List Char := ['\x1b', '[', '1', 'm']
def regular : List Char := ['\x1b', '[', '0', 'm']

def emphasized (text : List Char) : List Char :=
  strong ++ text ++ regular

def emphasize (text : String) : String :=
  String.ofList (emphasized text.toList)

theorem shows_visible {m : Mode} {c : Char} (shown : m.shows c = true) : isVisible c = true := by
  cases m <;> simp_all [Mode.shows, isVisible]

namespace Reader

theorem readAll_append (r : Reader) (first second : List Char) :
    r.readAll (first ++ second) = (r.readAll first).readAll second := by
  simp only [readAll, List.foldl_append]

theorem readAll_shown (text : List Char) (m : Mode) (showing : Bool) (before : List Char) :
    ((⟨m, showing, before⟩ : Reader).readAll text) =
      { (⟨m, showing, []⟩ : Reader).readAll text with
        shown := ((⟨m, showing, []⟩ : Reader).readAll text).shown ++ before } := by
  induction text generalizing m showing before with
  | nil => rfl
  | cons c rest ih =>
    simp only [readAll, List.foldl_cons, read] at ih ⊢
    split
    · rw [ih, ih _ _ [c]]
      simp
    · split
      · rw [ih, ih _ _ [c]]
        simp
      · exact ih _ _ _

theorem readAll_visible (r : Reader) (text : List Char) (before : ∀ c ∈ r.shown, isVisible c = true) :
    ∀ c ∈ (r.readAll text).shown, isVisible c = true := by
  induction text generalizing r with
  | nil => exact before
  | cons c rest ih =>
    refine ih (r.read c) ?_
    unfold read
    split
    · rename_i held
      intro next member
      rcases List.mem_cons.mp member with rfl | old
      · exact (Bool.and_eq_true_iff.mp held).2
      · exact before next old
    · split
      · rename_i held
        intro next member
        rcases List.mem_cons.mp member with rfl | old
        · exact shows_visible held
        · exact before next old
      · exact before

theorem readAll_strong (r : Reader) : r.readAll strong = ⟨.text, false, r.shown⟩ := by
  obtain ⟨m, showing, shown⟩ := r
  cases m <;> cases showing <;> rfl

theorem readAll_regular (r : Reader) : r.readAll regular = ⟨.text, false, r.shown⟩ := by
  obtain ⟨m, showing, shown⟩ := r
  cases m <;> cases showing <;> rfl

end Reader

theorem mem_visible {text : List Char} {c : Char} (member : c ∈ visible text) :
    isVisible c = true :=
  Reader.readAll_visible {} text (fun _ none => nomatch none) c (List.mem_reverse.mp member)

theorem visible_emphasized (before text after : List Char) :
    visible (before ++ emphasized text ++ after) = visible before ++ visible text ++ visible after := by
  simp only [visible, emphasized, Reader.readAll_append, Reader.readAll_strong,
    Reader.readAll_regular]
  rw [Reader.readAll_shown after, Reader.readAll_shown text]
  simp only [List.reverse_append, List.append_assoc]

end Microcode.Terminal
