import MonkeyLang.Text.Outline
import MonkeyLang.Token.Display

namespace MonkeyLang

open Text (Outline)

def Span.outline (span : Span) : Outline :=
  .record "Span" [.field "start" (.nat span.start), .field "length" (.nat span.length)]

def Token.outline (token : Token) : Outline :=
  .record "Token" [.field "kind" (.leaf token.kind.label),
    .field "literal" (.quoted token.literal), .field "span" token.span.outline]

end MonkeyLang
