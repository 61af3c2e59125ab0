/-! Command lines, split into words as a shell splits them: blanks divide words, a backslash or
quotes take a blank into a word, `#` at the beginning of a word opens a comment up to the end of the
line. Nothing is expanded. -/

namespace ImageAssembly.ShellWords

/-- The place of the next character. -/
inductive Place
  | between
  | comment
  | bare
  | singleQuoted
  | doubleQuoted
  deriving DecidableEq, Repr

def isDelimiter (c : Char) : Bool := c == ' ' || c == '\t' || c == '\n'

/-- Characters that lose their meaning behind a backslash in double quotes. -/
def isEscapable (c : Char) : Bool := c == '$' || c == '\x60' || c == '"' || c == '\\'

/-- The words from here on; `word` holds the characters of an unfinished one, last first. A quote
that is not closed is the only fault. -/
def scan : Place → List Char → List Char → Option (List String)
  | .between, _, [] | .comment, _, [] => some []
  | .bare, word, [] => some [String.ofList word.reverse]
  | .singleQuoted, _, [] | .doubleQuoted, _, [] => none
  | .between, word, ['\\'] | .bare, word, ['\\'] => some [String.ofList ('\\' :: word).reverse]
  | .between, word, '\\' :: '\n' :: r => scan .between word r
  | .bare, word, '\\' :: '\n' :: r => scan .bare word r
  | .between, word, '\\' :: c :: r | .bare, word, '\\' :: c :: r => scan .bare (c :: word) r
  | .between, word, c :: r =>
    if c = '\'' then scan .singleQuoted word r
    else if c = '"' then scan .doubleQuoted word r
    else if isDelimiter c then scan .between word r
    else if c = '#' then scan .comment word r
    else scan .bare (c :: word) r
  | .comment, word, c :: r => if c = '\n' then scan .between word r else scan .comment word r
  | .bare, word, c :: r =>
    if c = '\'' then scan .singleQuoted word r
    else if c = '"' then scan .doubleQuoted word r
    else if isDelimiter c then (scan .between [] r).map (String.ofList word.reverse :: ·)
    else scan .bare (c :: word) r
  | .singleQuoted, word, c :: r =>
    if c = '\'' then scan .bare word r else scan .singleQuoted (c :: word) r
  | .doubleQuoted, _, ['\\'] => none
  | .doubleQuoted, word, '\\' :: c :: r =>
    if c = '\n' then scan .doubleQuoted word r
    else if isEscapable c then scan .doubleQuoted (c :: word) r
    else scan .doubleQuoted (c :: '\\' :: word) r
  | .doubleQuoted, word, c :: r =>
    if c = '"' then scan .bare word r else scan .doubleQuoted (c :: word) r

/-- The words of a command line, or nothing when a quote is not closed. -/
def split? (s : String) : Option (List String) := scan .between [] s.toList

/-- The text of the only fault. -/
def faultMessage : String := "missing closing quote"

end ImageAssembly.ShellWords
