import Rewind.Text.Printable

namespace Rewind.Text

/-- How a code point is written between quotes. -/
def escaped (quote c : CodePoint) : Text :=
  if c == quote || c == '\\' then ['\\', c]
  else if c == '\t' then "\\t"
  else if c == '\n' then "\\n"
  else if c == '\r' then "\\r"
  else if c.isPrintable then [c]
  else if c.val < 0x100 then '\\' :: 'x' :: hex 2 c.val
  else if c.val < 0x10000 then '\\' :: 'u' :: hex 4 c.val
  else '\\' :: 'U' :: hex 8 c.val

/-- A text holding an apostrophe and no double quote is put in double quotes, any other in
apostrophes. -/
def quote (t : Text) : CodePoint := if t.contains '\'' && !t.contains '"' then '"' else '\''

def quoted (t : Text) : Text :=
  t.quote :: t.flatMap (escaped t.quote) ++ [t.quote]

end Rewind.Text
