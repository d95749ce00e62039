import ScriptFront.Document.Basic
import ScriptFront.Settings.Basic

/-!
# Descriptions of settings

The documents of settings and bounds, under the names that structured texts use for them.
-/

namespace ScriptFront

def Limits.describe (l : Limits) : Document :=
  .record "Limits"
    [.shown "max_script_length" (.natural l.maxScriptLength),
      .shown "max_statement_depth" (.natural l.maxStatementDepth),
      .shown "max_call_depth" (.natural l.maxCallDepth),
      .shown "max_member_depth" (.natural l.maxMemberDepth),
      .shown "max_paren_depth" (.natural l.maxParenDepth),
      .shown "max_expression_depth" (.natural l.maxExpressionDepth),
      .shown "max_interpolation_depth" (.natural l.maxInterpolationDepth),
      .shown "max_params" (.natural l.maxParams),
      .shown "max_aliases" (.natural l.maxAliases)]

def Settings.describe (s : Settings) : Document :=
  .record "ParserConfig"
    [.shown "interpolation_marker" (.text s.marker.toString),
      .shown "lookahead" (.natural s.lookahead),
      .shown "limits" s.limits.describe,
      .shown "file" (.ofOption .text s.file)]

end ScriptFront
