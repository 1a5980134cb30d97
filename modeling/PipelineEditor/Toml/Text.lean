import PipelineEditor.Json.Quoted
import PipelineEditor.Text.Scanner

/-! TOML texts and what stands between values: white space, line ends and comments. -/
namespace PipelineEditor.Toml

open Text (Scanner)
open Text.Scanner

/-- The white space within a line. -/
def isSpace (c : Char) : Bool :=
  c == ' ' || c == '\t'

/-- The characters of comments and texts: all but control characters, tabs excepted. -/
def isPlain (c : Char) : Bool :=
  c == '\t' || (' ' ≤ c && c != '\x7f')

/-- Passes over white space within a line. -/
def spaces : Scanner Unit :=
  skipWhile isSpace

/-- Takes a line end. -/
def newline : Scanner Unit :=
  literal ['\n'] <|> literal ['\r', '\n']

/-- Takes a comment up to the end of its line. -/
def comment : Scanner Unit := do
  char '#'
  skipWhile isPlain

/-- Takes a line end, or stands at the end of the text. -/
def lineEnd : Scanner Unit := do
  match ← peek with
  | none => return ()
  | some _ => newline

/-- Takes the rest of a line that holds nothing more than a comment. -/
def restOfLine : Scanner Unit := do
  spaces
  let _ ← optional comment
  lineEnd

/-- Passes over white space, line ends and comments. -/
def filler : Nat → Scanner Unit
  | 0 => return ()
  | fuel + 1 => do
    spaces
    match ← peek with
    | some '#' =>
      comment
      filler fuel
    | some '\n' | some '\r' =>
      newline
      filler fuel
    | _ => return ()

/-- The character that a number of hexadecimal digits names. -/
def codePoint? (digits : List Char) : Option Char := do
  let values ← digits.mapM Json.hexValue?
  let n := values.foldl (fun n d => n * 16 + d) 0
  if n < 0xd800 ∨ (0xe000 ≤ n ∧ n < 0x110000) then some (Char.ofNat n) else none

/-- Takes what follows the backslash of an escape. -/
def escaped : Scanner Char := do
  let hex (count : Nat) : Scanner Char := do
    let s ← get
    set (s.drop count)
    if (s.take count).length = count then liftM (codePoint? (s.take count)) else failure
  match ← oneOf fun _ => true with
  | 'b' => return '\x08'
  | 't' => return '\t'
  | 'n' => return '\n'
  | 'f' => return '\x0c'
  | 'r' => return '\r'
  | '"' => return '"'
  | '\\' => return '\\'
  | 'u' => hex 4
  | 'U' => hex 8
  | _ => failure

/-- Takes the rest of a text in double quotes. -/
def basicRest : Nat → Scanner (List Char)
  | 0 => failure
  | fuel + 1 => do
    match ← oneOf isPlain with
    | '"' => return []
    | '\\' => do
      let c ← escaped
      return c :: (← basicRest fuel)
    | c => return c :: (← basicRest fuel)

/-- Takes the rest of a text in single quotes. -/
def literalRest : Scanner (List Char) := do
  let cs ← takeWhile fun c => isPlain c && c != '\''
  char '\''
  return cs

/-- Takes the quotes that end a text of several lines: three, behind at most two that belong to the
text. -/
def closingQuotes (quote : Char) : Scanner (List Char) := do
  let run := (← get).takeWhile (· == quote)
  if 3 ≤ run.length then
    literal (run.take 5)
    return List.replicate (run.length.min 5 - 3) quote
  else failure

/-- Takes a line end within a text; it is a line feed there. -/
def innerNewline : Scanner Char := do
  newline
  return '\n'

/-- Takes a backslash with the line end and all white space behind it. -/
def lineJoin : Scanner Unit := do
  char '\\'
  spaces
  newline
  let rec skip : Nat → Scanner Unit
    | 0 => return ()
    | fuel + 1 => (do spaces; newline; skip fuel) <|> spaces
  skip (← get).length

/-- Takes the rest of a text of several lines, in which backslashes escape if `escapes`. -/
def linesRest (quote : Char) (escapes : Bool) : Nat → Scanner (List Char)
  | 0 => failure
  | fuel + 1 =>
    closingQuotes quote <|> do
      match ← peek with
      | some '\\' =>
        if escapes then
          match ← optional lineJoin with
          | some _ => linesRest quote escapes fuel
          | none => do
            char '\\'
            let c ← escaped
            return c :: (← linesRest quote escapes fuel)
        else do
          char '\\'
          return '\\' :: (← linesRest quote escapes fuel)
      | _ => do
        let c ← innerNewline <|> oneOf isPlain
        return c :: (← linesRest quote escapes fuel)

/-- Takes a text of one line. -/
def lineText : Scanner (List Char) := do
  let fuel := (← get).length
  match ← oneOf fun _ => true with
  | '"' => basicRest fuel
  | '\'' => literalRest
  | _ => failure

/-- Takes a text of several lines; a line end right behind the opening quotes is no part of it. -/
def linesText (quote : Char) : Scanner (List Char) := do
  literal [quote, quote, quote]
  let _ ← optional newline
  linesRest quote (quote == '"') ((← get).length + 1)

/-- Takes a text of any form. -/
def text : Scanner String := do
  let s ← get
  let cs ← if s.take 3 = ['"', '"', '"'] then linesText '"'
    else if s.take 3 = ['\'', '\'', '\''] then linesText '\''
    else lineText
  return String.ofList cs

end PipelineEditor.Toml
