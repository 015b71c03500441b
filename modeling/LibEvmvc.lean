import LibEvmvc.Connection.AccessGate
import LibEvmvc.Connection.AfterHead
import LibEvmvc.Connection.BodyBuffer
import LibEvmvc.Connection.BodyFraming
import LibEvmvc.Connection.BodyKind
import LibEvmvc.Connection.BodyParser
import LibEvmvc.Connection.Connection
import LibEvmvc.Connection.Cuts
import LibEvmvc.Connection.Frames
import LibEvmvc.Connection.HeadParser
import LibEvmvc.Connection.ReadBody
import LibEvmvc.Connection.Rejected
import LibEvmvc.Connection.ReqLineReads
import LibEvmvc.Connection.RequestHead
import LibEvmvc.Connection.UrlEncoded
import LibEvmvc.Connection.WriteReset
import LibEvmvc.Events.TimerNames
import LibEvmvc.Events.TimerRefs
import LibEvmvc.Events.TimerRuns
import LibEvmvc.Events.Timers
import LibEvmvc.Fanjet.Ast
import LibEvmvc.Fanjet.CodeBlocks
import LibEvmvc.Fanjet.CodeGrammar
import LibEvmvc.Fanjet.CodeRounds
import LibEvmvc.Fanjet.CodeText
import LibEvmvc.Fanjet.CommentNodes
import LibEvmvc.Fanjet.CommentText
import LibEvmvc.Fanjet.Document
import LibEvmvc.Fanjet.Frames
import LibEvmvc.Fanjet.Generate
import LibEvmvc.Fanjet.LongestEntries
import LibEvmvc.Fanjet.Lossless
import LibEvmvc.Fanjet.Navigation
import LibEvmvc.Fanjet.NodeEnds
import LibEvmvc.Fanjet.NodeLinks
import LibEvmvc.Fanjet.NodeRounds
import LibEvmvc.Fanjet.OpenRounds
import LibEvmvc.Fanjet.OrderlyActions
import LibEvmvc.Fanjet.PageText
import LibEvmvc.Fanjet.ParensExpr
import LibEvmvc.Fanjet.Parser
import LibEvmvc.Fanjet.Positions
import LibEvmvc.Fanjet.Rounds
import LibEvmvc.Fanjet.SourceText
import LibEvmvc.Fanjet.StringEnds
import LibEvmvc.Fanjet.TexSections
import LibEvmvc.Fanjet.TokenCuts
import LibEvmvc.Fanjet.Tokenizer
import LibEvmvc.Fanjet.ViewBody
import LibEvmvc.Fanjet.ViewClass
import LibEvmvc.Foundation.Brackets
import LibEvmvc.Foundation.Bytes
import LibEvmvc.Foundation.Callback
import LibEvmvc.Foundation.Chains
import LibEvmvc.Foundation.Chunked
import LibEvmvc.Foundation.Codec
import LibEvmvc.Foundation.CppComment
import LibEvmvc.Foundation.CppLiteral
import LibEvmvc.Foundation.Framing
import LibEvmvc.Foundation.FsPath
import LibEvmvc.Foundation.JsonText
import LibEvmvc.Foundation.Layers
import LibEvmvc.Foundation.LineFeed
import LibEvmvc.Foundation.Lines
import LibEvmvc.Foundation.Modify
import LibEvmvc.Foundation.Percent
import LibEvmvc.Foundation.Radix64
import LibEvmvc.Foundation.Regex
import LibEvmvc.Foundation.Replace
import LibEvmvc.Foundation.Returns
import LibEvmvc.Foundation.Runs
import LibEvmvc.Foundation.Search
import LibEvmvc.Foundation.Segments
import LibEvmvc.Foundation.Threads
import LibEvmvc.Foundation.Turns
import LibEvmvc.Foundation.UMap
import LibEvmvc.Foundation.Words
import LibEvmvc.Http.AcceptLists
import LibEvmvc.Http.ContentType
import LibEvmvc.Http.CookieHeader
import LibEvmvc.Http.Cookies
import LibEvmvc.Http.ETag
import LibEvmvc.Http.FileReply
import LibEvmvc.Http.ForwardedFor
import LibEvmvc.Http.HeadLines
import LibEvmvc.Http.HeaderAttr
import LibEvmvc.Http.HeaderFlag
import LibEvmvc.Http.Headers
import LibEvmvc.Http.HtmlEntities
import LibEvmvc.Http.HtmlEscape
import LibEvmvc.Http.Jsonc
import LibEvmvc.Http.Methods
import LibEvmvc.Http.ParseMethod
import LibEvmvc.Http.QueryParams
import LibEvmvc.Http.Response
import LibEvmvc.Http.Statuses
import LibEvmvc.Http.Targets
import LibEvmvc.Http.UriCode
import LibEvmvc.Http.Url
import LibEvmvc.Http.UrlProgress
import LibEvmvc.Http.UrlText
import LibEvmvc.Jwt.Base64
import LibEvmvc.Jwt.Gate
import LibEvmvc.Jwt.Token
import LibEvmvc.Jwt.Verifier
import LibEvmvc.Multipart.Body
import LibEvmvc.Multipart.Chunks
import LibEvmvc.Multipart.FileSizes
import LibEvmvc.Multipart.FilterRules
import LibEvmvc.Multipart.FormFields
import LibEvmvc.Multipart.HeaderAttribute
import LibEvmvc.Multipart.Nested
import LibEvmvc.Multipart.Parser
import LibEvmvc.Multipart.Upload
import LibEvmvc.Routing.Dispatch
import LibEvmvc.Routing.Execute
import LibEvmvc.Routing.FileRouter
import LibEvmvc.Routing.FindRouter
import LibEvmvc.Routing.NormPath
import LibEvmvc.Routing.Policy
import LibEvmvc.Routing.Registry
import LibEvmvc.Routing.RouteMatch
import LibEvmvc.Routing.RoutePattern
import LibEvmvc.Routing.Router
import LibEvmvc.Views.EnginePaths
import LibEvmvc.Views.FindDocument
import LibEvmvc.Views.LayoutChain
import LibEvmvc.Views.Lookup
import LibEvmvc.Views.Partials
import LibEvmvc.Views.WriteBuffers
import LibEvmvc.Worker.Channel
import LibEvmvc.Worker.HandOff
import LibEvmvc.Worker.HandOffRuns
import LibEvmvc.Worker.Lifecycle
import LibEvmvc.Worker.Payload
import LibEvmvc.Worker.Peek
import LibEvmvc.Worker.ReadBounds
import LibEvmvc.Worker.Servers
