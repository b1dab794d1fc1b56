import MediaFlow.Lib.Bytes
import MediaFlow.Drm.Mp4Atom
import MediaFlow.Drm.Sample
import MediaFlow.Drm.Mp4Decrypter
import MediaFlow.Drm.Segment
import MediaFlow.Drm.Fragment
import MediaFlow.Drm.MoofOffsets
import MediaFlow.Drm.Streaming
import MediaFlow.Drm.SegmentPaths
import MediaFlow.Drm.SegmentPathsDiffer
import MediaFlow.Drm.MdatSamples
import MediaFlow.Drm.InPlace
import MediaFlow.Drm.TrackSetup
import MediaFlow.Drm.TrackIsolation
import MediaFlow.Mpd.Template
import MediaFlow.Mpd.Timeline
import MediaFlow.Mpd.Processor
import MediaFlow.Hls.SkipFilter
import MediaFlow.Mpd.Playlist
import MediaFlow.Mpd.LiveSequence
import MediaFlow.Lib.IpAddr
import MediaFlow.Proxy.ForwardGuard
import MediaFlow.Auth.Encryption
import MediaFlow.Auth.TokenBinding
import MediaFlow.Lib.UrlCoding
import MediaFlow.Lib.Routing
import MediaFlow.Server.Request
import MediaFlow.Server.Routes
import MediaFlow.Auth.Middleware
import MediaFlow.Auth.Bypass
import MediaFlow.Auth.TokenQuery
import MediaFlow.Xtream.Access
import MediaFlow.Lib.Base64
import MediaFlow.Xtream.Auth
import MediaFlow.Auth.QueryReaders
import MediaFlow.Lib.Runs
import MediaFlow.Acestream.Session
import MediaFlow.Acestream.Handler
import MediaFlow.Acestream.ClientAccounting
import MediaFlow.Acestream.OneSession
import MediaFlow.Mpd.Document
import MediaFlow.Mpd.MultiPeriod
import MediaFlow.Mpd.Master
import MediaFlow.Auth.FieldQuery
import MediaFlow.Auth.ValueQuery
import MediaFlow.Mpd.PlaylistUrl
import MediaFlow.Proxy.GenerateUrl
import MediaFlow.Proxy.TokenAndPlain
import MediaFlow.Hls.Prebuffer
import MediaFlow.Hls.Registration
import MediaFlow.Proxy.Stream
import MediaFlow.Proxy.HostLimit
import MediaFlow.Cache.Local
import MediaFlow.Lib.Djb2
import MediaFlow.Epg.Handler
import MediaFlow.Epg.Isolation
import MediaFlow.Epg.TimeToLive
import MediaFlow.Telegram.SessionGen
import MediaFlow.Telegram.DeadSessions
import MediaFlow.Lib.Lines
import MediaFlow.Utils.Url
import MediaFlow.Hls.Manifest
import MediaFlow.Lib.Inherit
import MediaFlow.Hls.SkippedTags
import MediaFlow.Hls.SkipPlan
import MediaFlow.Hls.SkipAgreement
import MediaFlow.Hls.Prefetch
import MediaFlow.Mpd.SegmentUrl
import MediaFlow.Hls.Routing
import MediaFlow.Hls.Completeness
import MediaFlow.Drm.SampleRanges
import MediaFlow.Drm.Keystream
import MediaFlow.Drm.CbcsPattern
import MediaFlow.Drm.CensPattern
import MediaFlow.Drm.BoxReads
import MediaFlow.Drm.InitReads
import MediaFlow.Drm.InitDelivery
import MediaFlow.Drm.SampleEntries
import MediaFlow.Mpd.Sidx
import MediaFlow.Mpd.SidxRanges
import MediaFlow.Mpd.SidxBox
import MediaFlow.Drm.SidxRewrite
import MediaFlow.Mpd.TimelineRuns
import MediaFlow.Mpd.LiveWindow
import MediaFlow.Lib.Holes
import MediaFlow.Mpd.TemplateScan
import MediaFlow.Drm.KeyPairs
import MediaFlow.Auth.TokenFormats
import MediaFlow.Ffi.Server
import MediaFlow.Ffi.Lifecycle
import MediaFlow.Mpd.Prebuffer
import MediaFlow.Lib.FirstMatch
import MediaFlow.Lib.Regex
import MediaFlow.Lib.Replace
import MediaFlow.Config.ProxyRouter
import MediaFlow.Config.RoutePriority
import MediaFlow.Config.RouteHosts
import MediaFlow.Lib.Digits
import MediaFlow.Lib.ZeroRuns
import MediaFlow.Telegram.Range
import MediaFlow.Telegram.MediaRef
import MediaFlow.Telegram.ChannelIds
import MediaFlow.Telegram.FileId
import MediaFlow.Telegram.Download
import MediaFlow.Hls.CacheKey
import MediaFlow.Hls.PrefetchQueue
import MediaFlow.Xtream.TokenRoundTrip
import MediaFlow.Hls.UriValues
import MediaFlow.Hls.LinePath
import MediaFlow.Mpd.FixedPoint
import MediaFlow.Mpd.PlaylistReading
import MediaFlow.Lib.StableSort
import MediaFlow.Mpd.MasterChoice
import MediaFlow.Mpd.TemplateEntries
import MediaFlow.Mpd.SegmentAddresses
import MediaFlow.Lib.Words
import MediaFlow.Drm.CounterSeek
import MediaFlow.Drm.BoxRoundTrip
import MediaFlow.Utils.ForwardedHost
import MediaFlow.Utils.Base64Url
import MediaFlow.Telegram.OutOfOrder
import MediaFlow.Extractor.Maxstream
import MediaFlow.Extractor.Packed
import MediaFlow.Telegram.History
import MediaFlow.Telegram.HistoryCoverage
import MediaFlow.PlaylistBuilder.Handler
import MediaFlow.PlaylistBuilder.EntryHeaders
import MediaFlow.Proxy.ForwardResponse
import MediaFlow.Lib.RoutePatterns
import MediaFlow.Lib.Separated
import MediaFlow.Xtream.StreamUrls
import MediaFlow.Xtream.ApiRewrite
import MediaFlow.Lib.Loop
import MediaFlow.Lib.Slices
import MediaFlow.Mpd.Duration
import MediaFlow.Lib.Occurrences
import MediaFlow.Proxy.BodySubstitution
import MediaFlow.Lib.Refinement
import MediaFlow.Lib.FilledStore
import MediaFlow.Hls.QueueSources
import MediaFlow.Hls.SegmentCache
import MediaFlow.Hls.CachedSegments
import MediaFlow.Proxy.RouteClients
import MediaFlow.Telegram.SessionString
import MediaFlow.Telegram.Stream
import MediaFlow.Telegram.StreamedDocument
import MediaFlow.Drm.SampleEncryption
import MediaFlow.Drm.EncryptedMedia
import MediaFlow.Mpd.IndexedPlayback
import MediaFlow.Mpd.EncryptedPlayback
import MediaFlow.Lib.Browsing
import MediaFlow.Hls.Handler
import MediaFlow.Hls.Links
import MediaFlow.Hls.Session
