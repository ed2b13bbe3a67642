import ServiceGraph.Grammar.Rule
import ServiceGraph.Source.Phrase
import ServiceGraph.Source.Token

namespace ServiceGraph.Source

abbrev Symbol := TokenKind ⊕ Phrase

namespace Syntax

open Grammar Phrase TokenKind

abbrev Rule := Grammar.Rule Symbol

abbrev Form := Grammar.Form Symbol

instance : Coe String Rule := ⟨fun s => .one (.inl (.fixed s))⟩

instance : Coe TokenKind Rule := ⟨fun k => .one (.inl k)⟩

instance : Coe Phrase Rule := ⟨fun p => .one (.inr p)⟩

/-- How tightly operators and what follows an operand hold. -/
def primaryLevel : Int := 7

def unaryLevel : Int := 6

def productLevel : Int := 5

def sumLevel : Int := 4

def comparisonLevel : Int := 3

def andLevel : Int := 2

def orLevel : Int := 1

def compositeLevel : Int := -1

def plain (r : Rule) : Form := ⟨r, 0, 0, none⟩

def weighing (weight : Int) (r : Rule) : Form := ⟨r, weight, 0, none⟩

def holding (level : Int) (r : Rule) : Form := ⟨r, 0, level, none⟩

def leftward (level : Int) (r : Rule) : Form := ⟨r, 0, level, some .left⟩

def rightward (level : Int) (r : Rule) : Form := ⟨r, 0, level, some .right⟩

def seq (rules : List Rule) : Rule := .sequence rules

def oneOf (first : Rule) (others : List Rule) : Rule := .choice first others

def opt (rules : List Rule) : Rule := .optional (seq rules)

def many (rules : List Rule) : Rule := .many (seq rules)

/-- One or more, with commas in between. -/
def commas (r : Rule) : Rule := .separated r ","

def terminator : Rule := oneOf newline [";"]

/-- Lines between brackets. The last one need not be ended. -/
def lines (opening closing : String) (r : Rule) : Rule :=
  seq [opening, opt [r, many [terminator, r], opt [terminator]], closing]

/-- Lines between round brackets that are all ended. -/
def endedLines (r : Rule) : Rule := seq ["(", many [r, terminator], ")"]

/-- Elements between brackets. A comma may follow the last one. -/
def elements (opening closing : String) (r : Rule) : Rule :=
  seq [opening, commas r, opt [","], closing]

/-- As `elements`, or nothing between the brackets. -/
def optionalElements (opening closing : String) (r : Rule) : Rule :=
  seq [opening, opt [.optional (commas r), opt [","]], closing]

def anyType : Rule := oneOf simpleType [parenthesizedType]

/-- What a function returns. -/
def result : Rule := .optional (oneOf parameters [simpleType])

def interfaceElement : Rule := oneOf methodElement [typeElement]

def caseBody : Rule := opt [statements]

/-- A statement before the condition of another one. -/
def opening : Rule := opt [simpleStatement, ";"]

def forms : Phrase → List Form
  | file =>
    let part := oneOf statement
      [packageClause, functionDeclaration, methodDeclaration, importDeclaration]
    let last := oneOf packageClause [functionDeclaration, methodDeclaration, importDeclaration]
    [plain (seq [many [part, terminator], .optional last])]
  | packageClause => [plain (seq ["package", name])]
  | importDeclaration => [plain (seq ["import", oneOf importSpec [importSpecs]])]
  | importSpec => [plain (seq [.optional (oneOf dotImport [name]), text])]
  | dotImport => [plain "."]
  | importSpecs => [plain (lines "(" ")" importSpec)]
  | declaration =>
    [plain constDeclaration, plain typeDeclaration, plain varDeclaration]
  | constDeclaration => [plain (seq ["const", oneOf constSpec [endedLines constSpec]])]
  | constSpec =>
    [leftward 0 (seq [commas name, opt [.optional anyType, "=", expressions]])]
  | varDeclaration => [plain (seq ["var", oneOf varSpec [varSpecs]])]
  | varSpec =>
    [plain (seq [commas name,
      oneOf (seq [anyType, opt ["=", expressions]]) [seq ["=", expressions]]])]
  | varSpecs => [plain (endedLines varSpec)]
  | functionDeclaration =>
    [rightward 1 (seq ["func", name, opt [typeParameters], parameters, result, opt [block]])]
  | methodDeclaration =>
    [rightward 1 (seq ["func", parameters, name, parameters, result, opt [block]])]
  | typeParameters => [plain (elements "[" "]" typeParameter)]
  | typeParameter => [plain (seq [commas name, typeElement])]
  | parameters => [plain (optionalElements "(" ")" (oneOf parameter [variadicParameter]))]
  | parameter => [plain (seq [.optional (commas name), anyType])]
  | variadicParameter => [plain (seq [opt [name], "...", anyType])]
  | typeAlias => [plain (seq [name, opt [typeParameters], "=", anyType])]
  | typeDeclaration =>
    [plain (seq ["type", oneOf typeSpec [typeAlias, endedLines (oneOf typeSpec [typeAlias])]])]
  | typeSpec => [weighing 1 (seq [name, opt [typeParameters], anyType])]
  | expressions => [plain (commas expression)]
  | parenthesizedType => [plain (seq ["(", anyType, ")"])]
  | simpleType =>
    [weighing (-1) name, plain genericType, plain qualifiedType, plain pointerType,
      plain structType, plain interfaceType, plain arrayType, plain sliceType, plain mapType,
      plain channelType, plain functionType, plain negatedType]
  | genericType =>
    [weighing 1 (seq [oneOf name [qualifiedType, negatedType], typeArguments])]
  | typeArguments => [weighing 1 (elements "[" "]" typeElement)]
  | pointerType => [holding unaryLevel (seq ["*", anyType])]
  | arrayType => [rightward 0 (seq ["[", expression, "]", anyType])]
  | countedArrayType => [plain (seq ["[", "...", "]", anyType])]
  | sliceType => [rightward 0 (seq ["[", "]", anyType])]
  | structType => [plain (seq ["struct", fields])]
  | negatedType => [leftward 0 (seq ["~", anyType])]
  | fields => [plain (lines "\x7b" "\x7d" field)]
  | field =>
    [plain (seq [oneOf (seq [commas name, anyType])
      [seq [opt ["*"], oneOf name [qualifiedType, genericType]]], opt [text]])]
  | interfaceType => [plain (seq ["interface", lines "\x7b" "\x7d" interfaceElement])]
  | methodElement => [plain (seq [name, parameters, result])]
  | typeElement => [plain (.separated anyType "|")]
  | mapType => [rightward 0 (seq ["map", "[", anyType, "]", anyType])]
  | channelType =>
    [leftward 0 (seq ["chan", anyType]), leftward 0 (seq ["chan", "<-", anyType]),
      leftward unaryLevel (seq ["<-", "chan", anyType])]
  | functionType => [rightward 0 (seq ["func", parameters, result])]
  | block => [plain (seq ["\x7b", opt [statements], "\x7d"])]
  | statements =>
    [plain (seq [statement, many [terminator, statement],
      opt [terminator, opt [emptyLabeledStatement]]]), plain emptyLabeledStatement]
  | statement =>
    [plain declaration, plain simpleStatement, plain returnStatement, plain goStatement,
      plain deferStatement, plain ifStatement, plain forStatement, plain expressionSwitch,
      plain typeSwitch, plain selectStatement, plain labeledStatement, plain fallthroughStatement,
      plain breakStatement, plain continueStatement, plain gotoStatement, plain block,
      plain emptyStatement]
  | emptyStatement => [plain ";"]
  | simpleStatement =>
    [plain expressionStatement, plain sendStatement, plain incrementStatement, plain assignment,
      plain shortDeclaration]
  | expressionStatement => [plain expression]
  | sendStatement => [plain (seq [expression, "<-", expression])]
  | receiveStatement =>
    [plain (seq [opt [expressions, oneOf "=" [":="]], expression])]
  | incrementStatement => [plain (seq [expression, increment])]
  | assignment => [plain (seq [expressions, oneOf "=" [update], expressions])]
  | shortDeclaration => [plain (seq [expressions, ":=", expressions])]
  | labeledStatement => [plain (seq [name, ":", statement])]
  | emptyLabeledStatement => [plain (seq [name, ":"])]
  | fallthroughStatement => [leftward 0 "fallthrough"]
  | breakStatement => [plain (seq ["break", opt [name]])]
  | continueStatement => [plain (seq ["continue", opt [name]])]
  | gotoStatement => [plain (seq ["goto", name])]
  | returnStatement => [plain (seq ["return", opt [expressions]])]
  | goStatement => [plain (seq ["go", expression])]
  | deferStatement => [plain (seq ["defer", expression])]
  | ifStatement =>
    [plain (seq ["if", opening, expression, block, opt ["else", oneOf block [ifStatement]]])]
  | forStatement =>
    [plain (seq ["for", .optional (oneOf expression [forClause, rangeClause]), block])]
  | forClause =>
    [plain (seq [opt [simpleStatement], ";", opt [expression], ";", opt [simpleStatement]])]
  | rangeClause => [plain (seq [opt [expressions, oneOf "=" [":="]], "range", expression])]
  | expressionSwitch =>
    [plain (seq ["switch", opening, opt [expression], "\x7b",
      .many (oneOf expressionCase [defaultCase]), "\x7d"])]
  | expressionCase => [leftward 0 (seq ["case", expressions, ":", caseBody])]
  | defaultCase => [leftward 0 (seq ["default", ":", caseBody])]
  | typeSwitch =>
    [plain (seq ["switch", typeSwitchHeader, "\x7b", .many (oneOf typeCase [defaultCase]),
      "\x7d"])]
  | typeSwitchHeader =>
    [plain (seq [opening, opt [expressions, ":="], expression, ".", "(", "type", ")"])]
  | typeCase => [leftward 0 (seq ["case", commas anyType, ":", caseBody])]
  | selectStatement =>
    [plain (seq ["select", "\x7b", .many (oneOf communicationCase [defaultCase]), "\x7d"])]
  | communicationCase =>
    [leftward 0 (seq ["case", oneOf sendStatement [receiveStatement], ":", caseBody])]
  | expression =>
    [plain unary, plain binary, plain selector, plain index, plain slice, plain call,
      plain assertion, plain conversion, plain instantiation, plain name, plain allocation,
      plain composite, plain functionLiteral, plain text, plain literal, plain constant,
      plain parenthesized]
  | parenthesized => [plain (seq ["(", expression, ")"])]
  | call =>
    [holding primaryLevel (seq [allocation, typedArguments]),
      holding primaryLevel (seq [expression, opt [typeArguments], arguments])]
  | variadicArgument => [rightward 0 (seq [expression, "..."])]
  | typedArguments =>
    [rightward 0 (seq ["(", opt [anyType, many [",", expression], opt [","]], ")"])]
  | arguments => [plain (optionalElements "(" ")" (oneOf expression [variadicArgument]))]
  | selector => [holding primaryLevel (seq [expression, ".", name])]
  | index => [holding primaryLevel (seq [expression, "[", expression, "]"])]
  | slice =>
    [holding primaryLevel (seq [expression, "[",
      oneOf (seq [opt [expression], ":", opt [expression]])
        [seq [opt [expression], ":", expression, ":", expression]], "]"])]
  | assertion => [holding primaryLevel (seq [expression, ".", "(", anyType, ")"])]
  | conversion => [weighing (-1) (seq [anyType, "(", expression, opt [","], ")"])]
  | instantiation => [plain (seq [anyType, elements "[" "]" anyType])]
  | composite =>
    [holding compositeLevel (seq [oneOf mapType [sliceType, arrayType, countedArrayType,
      structType, name, genericType, qualifiedType], literalValue])]
  | literalValue =>
    [plain (optionalElements "\x7b" "\x7d" (oneOf literalElement [keyedElement]))]
  | literalElement => [plain expression, plain literalValue]
  | keyedElement => [plain (seq [literalElement, ":", literalElement])]
  | functionLiteral => [plain (seq ["func", parameters, result, block])]
  | unary =>
    [holding unaryLevel (seq [oneOf sign ["!", "*", "&", "<-"], expression])]
  | binary =>
    [leftward productLevel (seq [expression, oneOf factor ["*", "&"], expression]),
      leftward sumLevel (seq [expression, oneOf sign ["|"], expression]),
      leftward comparisonLevel (seq [expression, comparison, expression]),
      leftward andLevel (seq [expression, "&&", expression]),
      leftward orLevel (seq [expression, "||", expression])]
  | qualifiedType => [plain (seq [name, ".", name])]

end Syntax

end ServiceGraph.Source
