import NeuralMesh.Js.StringText

/-! The syntax trees of acorn, as far as the taint analyzer tells their nodes apart, and the walk
over them. -/
namespace NeuralMesh.Security

open Js

inductive FunctionKind where
  | arrow
  | expression
  | declaration
  deriving DecidableEq

/-- The parts of a node are in the order of the walk; a hole of an array is an `other` node without
parts. -/
inductive Node where
  | identifier (name : JsString)
  /-- A string, or another value. -/
  | literal (value : Option JsString)
  | memberExpression (object property : Node) (computed : Bool)
  | callExpression (callee : Node) (arguments : List Node)
  | function (kind : FunctionKind) (id : Option JsString) (params : List Node) (body : Node)
  | yieldExpression (argument : Option Node)
  /-- `BinaryExpression` and `LogicalExpression` -/
  | binaryExpression (left right : Node)
  | unaryExpression (argument : Node)
  | conditionalExpression (test consequent alternate : Node)
  | objectExpression (properties : List Node)
  | property (key value : Node) (computed : Bool)
  | arrayExpression (elements : List Node)
  | templateLiteral (expressions : List Node)
  | spreadElement (argument : Node)
  | assignmentExpression (left right : Node)
  | variableDeclaration (declarations : List Node)
  | variableDeclarator (id : Node) (init : Option Node)
  | forOfStatement (left right body : Node)
  | blockStatement (body : List Node)
  | returnStatement (argument : Option Node)
  | other (parts : List Node)

mutual

/-- The nodes that `simple` visits, in its order: the parts of a node before the node. -/
def visited : Node → List Node
  | .identifier name => [.identifier name]
  | .literal value => [.literal value]
  | .memberExpression object property computed =>
    visited object ++ (if computed then visited property else []) ++
      [.memberExpression object property computed]
  | .callExpression callee arguments =>
    visited callee ++ visitedAll arguments ++ [.callExpression callee arguments]
  | .function kind id params body =>
    visitedAll params ++ visited body ++ [.function kind id params body]
  | .yieldExpression argument => visitedOption argument ++ [.yieldExpression argument]
  | .binaryExpression left right => visited left ++ visited right ++ [.binaryExpression left right]
  | .unaryExpression argument => visited argument ++ [.unaryExpression argument]
  | .conditionalExpression test consequent alternate =>
    visited test ++ visited consequent ++ visited alternate ++
      [.conditionalExpression test consequent alternate]
  | .objectExpression properties => visitedAll properties ++ [.objectExpression properties]
  | .property key value computed =>
    (if computed then visited key else []) ++ visited value ++ [.property key value computed]
  | .arrayExpression elements => visitedAll elements ++ [.arrayExpression elements]
  | .templateLiteral expressions => visitedAll expressions ++ [.templateLiteral expressions]
  | .spreadElement argument => visited argument ++ [.spreadElement argument]
  | .assignmentExpression left right =>
    visited left ++ visited right ++ [.assignmentExpression left right]
  | .variableDeclaration declarations =>
    visitedAll declarations ++ [.variableDeclaration declarations]
  | .variableDeclarator id init =>
    visited id ++ visitedOption init ++ [.variableDeclarator id init]
  | .forOfStatement left right body =>
    visited left ++ visited right ++ visited body ++ [.forOfStatement left right body]
  | .blockStatement body => visitedAll body ++ [.blockStatement body]
  | .returnStatement argument => visitedOption argument ++ [.returnStatement argument]
  | .other parts => visitedAll parts ++ [.other parts]

def visitedAll : List Node → List Node
  | [] => []
  | node :: nodes => visited node ++ visitedAll nodes

def visitedOption : Option Node → List Node
  | none => []
  | some node => visited node

end

end NeuralMesh.Security
