/-!
# Kinds of syntax nodes

The kinds keep apart what the migration looks at: statements, the parts of declarations, imports,
binding patterns, functions, static blocks, calls, object members, names and markup.  What no rule
distinguishes is grouped: `expression` is any other composite or literal expression, `typeForm`
any part of a type, `clause` any other part of a construct.  A label says which part of its parent
a node is.
-/

namespace ThemeMigration.Script

inductive Kind where
  | program | comment | hashBangLine
  | importStatement | exportStatement | expressionStatement
  | lexicalDeclaration | variableDeclaration
  | functionDeclaration | generatorFunctionDeclaration | functionSignature
  | classDeclaration | abstractClassDeclaration | enumDeclaration
  | interfaceDeclaration | typeAliasDeclaration | ambientDeclaration
  | moduleDeclaration | internalModule | importAlias
  | statementBlock | emptyStatement | labeledStatement
  | ifStatement | switchStatement | tryStatement | withStatement
  | forStatement | forInStatement | whileStatement | doStatement
  | breakStatement | continueStatement | returnStatement | throwStatement | debuggerStatement
  | variableDeclarator | arguments | formalParameters | requiredParameter | optionalParameter
  | importClause | namespaceImport | namedImports | importSpecifier | importAttribute
  | objectPattern | arrayPattern | restPattern | pairPattern
  | assignmentPattern | objectAssignmentPattern | shorthandPattern
  | arrowFunction | functionExpression | generatorFunction
  | callExpression | parenthesizedExpression | object | pair | computedPropertyName
  | string | templateString | number
  | jsxElement | jsxSelfClosingElement | jsxFragment
  | identifier | shorthandIdentifier | propertyIdentifier | typeIdentifier
  | classStaticBlock
  | expression | typeForm | clause
  | typeKeyword | typeofKeyword
  deriving DecidableEq, Repr, Inhabited

namespace Kind

/-- The two keywords that mark a type-only import are kept as tokens; every other kind is a node
in its own right. -/
def isNamed : Kind → Bool
  | typeKeyword | typeofKeyword => false
  | _ => true

/-- Names, literals, comments and tokens are read as a whole and have no parts. -/
def isAtomic : Kind → Bool
  | comment | hashBangLine | string | number
  | identifier | shorthandIdentifier | shorthandPattern | propertyIdentifier | typeIdentifier
  | typeKeyword | typeofKeyword => true
  | _ => false

/-- The name under which a statement is listed. -/
def name : Kind → String
  | program => "program"
  | comment => "comment"
  | hashBangLine => "hash_bang_line"
  | importStatement => "import_statement"
  | exportStatement => "export_statement"
  | expressionStatement => "expression_statement"
  | lexicalDeclaration => "lexical_declaration"
  | variableDeclaration => "variable_declaration"
  | functionDeclaration => "function_declaration"
  | generatorFunctionDeclaration => "generator_function_declaration"
  | functionSignature => "function_signature"
  | classDeclaration => "class_declaration"
  | abstractClassDeclaration => "abstract_class_declaration"
  | enumDeclaration => "enum_declaration"
  | interfaceDeclaration => "interface_declaration"
  | typeAliasDeclaration => "type_alias_declaration"
  | ambientDeclaration => "ambient_declaration"
  | moduleDeclaration => "module"
  | internalModule => "internal_module"
  | importAlias => "import_alias"
  | statementBlock => "statement_block"
  | emptyStatement => "empty_statement"
  | labeledStatement => "labeled_statement"
  | ifStatement => "if_statement"
  | switchStatement => "switch_statement"
  | tryStatement => "try_statement"
  | withStatement => "with_statement"
  | forStatement => "for_statement"
  | forInStatement => "for_in_statement"
  | whileStatement => "while_statement"
  | doStatement => "do_statement"
  | breakStatement => "break_statement"
  | continueStatement => "continue_statement"
  | returnStatement => "return_statement"
  | throwStatement => "throw_statement"
  | debuggerStatement => "debugger_statement"
  | variableDeclarator => "variable_declarator"
  | arguments => "arguments"
  | formalParameters => "formal_parameters"
  | requiredParameter => "required_parameter"
  | optionalParameter => "optional_parameter"
  | importClause => "import_clause"
  | namespaceImport => "namespace_import"
  | namedImports => "named_imports"
  | importSpecifier => "import_specifier"
  | importAttribute => "import_attribute"
  | objectPattern => "object_pattern"
  | arrayPattern => "array_pattern"
  | restPattern => "rest_pattern"
  | pairPattern => "pair_pattern"
  | assignmentPattern => "assignment_pattern"
  | objectAssignmentPattern => "object_assignment_pattern"
  | shorthandPattern => "shorthand_property_identifier_pattern"
  | arrowFunction => "arrow_function"
  | functionExpression => "function_expression"
  | generatorFunction => "generator_function"
  | callExpression => "call_expression"
  | parenthesizedExpression => "parenthesized_expression"
  | object => "object"
  | pair => "pair"
  | computedPropertyName => "computed_property_name"
  | string => "string"
  | templateString => "template_string"
  | number => "number"
  | jsxElement => "jsx_element"
  | jsxSelfClosingElement => "jsx_self_closing_element"
  | jsxFragment => "jsx_fragment"
  | identifier => "identifier"
  | shorthandIdentifier => "shorthand_property_identifier"
  | propertyIdentifier => "property_identifier"
  | typeIdentifier => "type_identifier"
  | classStaticBlock => "class_static_block"
  | expression => "expression"
  | typeForm => "type"
  | clause => "clause"
  | typeKeyword => "type"
  | typeofKeyword => "typeof"

end Kind

/-- The part that a node plays in its parent. -/
inductive Label where
  | name | value | body | key | left | localName | source | pattern
  | parameters | parameter | callee | arguments | declaration
  deriving DecidableEq, Repr, Inhabited

end ThemeMigration.Script
