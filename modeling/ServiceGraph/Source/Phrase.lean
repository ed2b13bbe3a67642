namespace ServiceGraph.Source

inductive Phrase where
  | file
  | packageClause
  | importDeclaration
  | importSpec
  | dotImport
  | importSpecs
  | declaration
  | constDeclaration
  | constSpec
  | varDeclaration
  | varSpec
  | varSpecs
  | functionDeclaration
  | methodDeclaration
  | typeParameters
  | typeParameter
  | parameters
  | parameter
  | variadicParameter
  | typeAlias
  | typeDeclaration
  | typeSpec
  | expressions
  | parenthesizedType
  | simpleType
  | genericType
  | typeArguments
  | pointerType
  | arrayType
  | countedArrayType
  | sliceType
  | structType
  | negatedType
  | fields
  | field
  | interfaceType
  | methodElement
  | typeElement
  | mapType
  | channelType
  | functionType
  | block
  | statements
  | statement
  | emptyStatement
  | simpleStatement
  | expressionStatement
  | sendStatement
  | receiveStatement
  | incrementStatement
  | assignment
  | shortDeclaration
  | labeledStatement
  | emptyLabeledStatement
  | fallthroughStatement
  | breakStatement
  | continueStatement
  | gotoStatement
  | returnStatement
  | goStatement
  | deferStatement
  | ifStatement
  | forStatement
  | forClause
  | rangeClause
  | expressionSwitch
  | expressionCase
  | defaultCase
  | typeSwitch
  | typeSwitchHeader
  | typeCase
  | selectStatement
  | communicationCase
  | expression
  | parenthesized
  | call
  | variadicArgument
  | typedArguments
  | arguments
  | selector
  | index
  | slice
  | assertion
  | conversion
  | instantiation
  | composite
  | literalValue
  | literalElement
  | keyedElement
  | functionLiteral
  | unary
  | binary
  | qualifiedType
  deriving DecidableEq

namespace Phrase

/-- All phrases in order. -/
def all : List Phrase :=
  [file, packageClause, importDeclaration, importSpec, dotImport, importSpecs, declaration,
    constDeclaration, constSpec, varDeclaration, varSpec, varSpecs, functionDeclaration,
    methodDeclaration, typeParameters, typeParameter, parameters, parameter, variadicParameter,
    typeAlias, typeDeclaration, typeSpec, expressions, parenthesizedType, simpleType, genericType,
    typeArguments, pointerType, arrayType, countedArrayType, sliceType, structType, negatedType,
    fields, field, interfaceType, methodElement, typeElement, mapType, channelType, functionType,
    block, statements, statement, emptyStatement, simpleStatement, expressionStatement,
    sendStatement, receiveStatement, incrementStatement, assignment, shortDeclaration,
    labeledStatement, emptyLabeledStatement, fallthroughStatement, breakStatement,
    continueStatement, gotoStatement, returnStatement, goStatement, deferStatement, ifStatement,
    forStatement, forClause, rangeClause, expressionSwitch, expressionCase, defaultCase,
    typeSwitch, typeSwitchHeader, typeCase, selectStatement, communicationCase, expression,
    parenthesized, call, variadicArgument, typedArguments, arguments, selector, index, slice,
    assertion, conversion, instantiation, composite, literalValue, literalElement, keyedElement,
    functionLiteral, unary, binary, qualifiedType]

end Phrase

end ServiceGraph.Source
